import WasmSnapshot.Accessor.Function
import WasmSnapshot.Proofs.Host.Exec
import WasmSnapshot.Snapshot.GlobalValue

/-! What accessor functions do. A getter returns a global, or a half of it, and leaves the store as it
is. A setter gives a global the value that its arguments make up, so that the getters return the
arguments again. -/

namespace WasmSnapshot

/-! ### Halves of double words -/

theorem toNat_joined (high low : UInt32) :
    (high.toUInt64 <<< 32 ||| low.toUInt64).toNat = 2 ^ 32 * high.toNat + low.toNat := by
  have hlow : low.toNat < 2 ^ 32 := low.toNat_lt
  have hhigh : high.toNat < 2 ^ 32 := high.toNat_lt
  rw [UInt64.toNat_or, UInt64.toNat_shiftLeft, UInt32.toNat_toUInt64, UInt32.toNat_toUInt64,
    show (32 : UInt64).toNat % 64 = 32 from rfl, Nat.shiftLeft_eq, Nat.mod_eq_of_lt (by omega),
    Nat.mul_comm high.toNat, Nat.two_pow_add_eq_or_of_lt hlow]

theorem high_joined (high low : UInt32) :
    ((high.toUInt64 <<< 32 ||| low.toUInt64) >>> 32).toUInt32 = high := by
  have hlow : low.toNat < 2 ^ 32 := low.toNat_lt
  have hhigh : high.toNat < 2 ^ 32 := high.toNat_lt
  rw [← UInt32.toNat_inj, UInt64.toNat_toUInt32, UInt64.toNat_shiftRight, toNat_joined,
    show (32 : UInt64).toNat % 64 = 32 from rfl, Nat.shiftRight_eq_div_pow]
  omega

theorem low_joined (high low : UInt32) :
    (high.toUInt64 <<< 32 ||| low.toUInt64).toUInt32 = low := by
  have hlow : low.toNat < 2 ^ 32 := low.toNat_lt
  rw [← UInt32.toNat_inj, UInt64.toNat_toUInt32, toNat_joined]
  omega

theorem joined_halves (bits : UInt64) :
    (bits >>> 32).toUInt32.toUInt64 <<< 32 ||| bits.toUInt32.toUInt64 = bits := by
  have hlt := bits.toNat_lt
  rw [← UInt64.toNat_inj, toNat_joined, UInt64.toNat_toUInt32, UInt64.toNat_toUInt32,
    UInt64.toNat_shiftRight, show (32 : UInt64).toNat % 64 = 32 from rfl, Nat.shiftRight_eq_div_pow]
  omega

/-- The value of a global in a snapshot, if it is an integer. -/
def Value.global? : Value → Option GlobalValue
  | .i32 bits => some (.i32 bits.toInt32)
  | .i64 bits => some (.i64 (bits >>> 32).toUInt32.toInt32 bits.toUInt32.toInt32)
  | _ => none

/-- The value that a recorded value stands for. -/
def GlobalValue.toValue : GlobalValue → Value
  | .i32 value => .i32 value.toUInt32
  | .i64 high low => .i64 (high.toUInt32.toUInt64 <<< 32 ||| low.toUInt32.toUInt64)

/-- A recorded value is recorded again as it was. -/
theorem GlobalValue.global?_toValue (value : GlobalValue) : value.toValue.global? = some value := by
  cases value with
  | i32 value => rfl
  | i64 high low => rw [toValue, Value.global?, high_joined, low_joined]; rfl

/-- What is recorded of a value is that value. -/
theorem Value.toValue_of_global? {value : Value} {recorded : GlobalValue}
    (h : value.global? = some recorded) : recorded.toValue = value := by
  cases value with
  | i32 bits => cases h; rfl
  | i64 bits =>
    cases h
    exact congrArg Value.i64 (joined_halves bits)
  | f32 bits | f64 bits | v128 bytes | ref function => cases h

/-! ### Running code -/

namespace Exec

variable [Host] {invoke : Address → List Value → Run (List Value)} {frame : Frame} {store next : Store}
  {stack middle : Stack} {instr : Instr} {code : List Instr}

theorem run_runCode_nil : store.run (runCode invoke frame [] stack) = (.ok stack, store) := rfl

theorem run_runCode_cons (hret : instr ≠ .ret)
    (h : store.run (step invoke frame stack instr) = (.ok middle, next)) :
    store.run (runCode invoke frame (instr :: code) stack) =
      next.run (runCode invoke frame code middle) := by
  rw [runCode_cons hret, Store.run_bind_of_ok h]

omit [Host] in
theorem run_resolve {space : List Address} {index : UInt32} {address : Address}
    (h : space[index.toNat]? = some address) :
    store.run (resolve space index) = (.ok address, store) := by
  rw [resolve, h]
  rfl

/-- Reading a global is the first instruction of every getter. -/
theorem run_globalGet {index : UInt32} {address : Address} {cell : GlobalCell}
    (haddress : frame.scope.globals[index.toNat]? = some address)
    (hcell : store.globals[address]? = some cell) :
    store.run (runCode invoke frame (.globalGet index :: code) stack) =
      store.run (runCode invoke frame code (cell.value :: stack)) := by
  refine run_runCode_cons (by rintro ⟨⟩) ?_
  rw [step, Store.run_bind_of_ok (run_resolve haddress), Store.run_bind_of_ok (Run.run_global hcell)]
  rfl

/-- Writing a global is the last instruction of every setter. -/
theorem run_globalSet {index : UInt32} {address : Address} {cell : GlobalCell} {value : Value}
    (haddress : frame.scope.globals[index.toNat]? = some address)
    (hcell : store.globals[address]? = some cell) (hasType : value.hasType cell.type.value) :
    store.run (runCode invoke frame [.globalSet index] (value :: stack)) =
      (.ok stack, { store with
        globals := store.globals.setIfInBounds address ⟨cell.type, value, hasType⟩ }) := by
  have hset : store.run (Run.setGlobal address value) = (.ok (), { store with
      globals := store.globals.setIfInBounds address ⟨cell.type, value, hasType⟩ }) := by
    rw [Run.setGlobal, Store.run_bind_of_ok (Run.run_global hcell), dif_pos hasType]
    rfl
  have hstep : store.run (step invoke frame (value :: stack) (.globalSet index)) =
      (.ok stack, { store with
        globals := store.globals.setIfInBounds address ⟨cell.type, value, hasType⟩ }) := by
    rw [step, Store.run_bind_of_ok (run_resolve haddress), Store.run_bind_of_ok hset]
    rfl
  rw [run_runCode_cons (by rintro ⟨⟩) hstep, run_runCode_nil]

theorem run_localGet {index : UInt32} (value : Value)
    (h : frame.locals[index.toNat]? = some value) :
    store.run (runCode invoke frame (.localGet index :: code) stack) =
      store.run (runCode invoke frame code (value :: stack)) := by
  refine run_runCode_cons (by rintro ⟨⟩) ?_
  rw [step, h]
  rfl

/-! The code of accessor functions. -/

section Code

variable {scope : Scope} {args : List Value} {index : UInt32} {address : Address}
  {cell : GlobalCell}

theorem runCode_i32Getter (haddress : scope.globals[index.toNat]? = some address)
    (hcell : store.globals[address]? = some cell) {bits : UInt32} (hvalue : cell.value = .i32 bits) :
    store.run (runCode invoke ⟨scope, args⟩ [.globalGet index] []) = (.ok [.i32 bits], store) := by
  rw [run_globalGet haddress hcell, hvalue]
  rfl

theorem runCode_i64GetterHigh (haddress : scope.globals[index.toNat]? = some address)
    (hcell : store.globals[address]? = some cell) {bits : UInt64} (hvalue : cell.value = .i64 bits) :
    store.run (runCode invoke ⟨scope, args⟩
      [.globalGet index, .i64Const 32, .i64ShrU, .i32WrapI64] []) =
      (.ok [.i32 (bits >>> 32).toUInt32], store) := by
  rw [run_globalGet haddress hcell, hvalue]
  rfl

theorem runCode_i64GetterLow (haddress : scope.globals[index.toNat]? = some address)
    (hcell : store.globals[address]? = some cell) {bits : UInt64} (hvalue : cell.value = .i64 bits) :
    store.run (runCode invoke ⟨scope, args⟩ [.globalGet index, .i32WrapI64] []) =
      (.ok [.i32 bits.toUInt32], store) := by
  rw [run_globalGet haddress hcell, hvalue]
  rfl

theorem runCode_i32Setter (haddress : scope.globals[index.toNat]? = some address)
    (hcell : store.globals[address]? = some cell) {bits : UInt32}
    (hasType : (Value.i32 bits).hasType cell.type.value) :
    store.run (runCode invoke ⟨scope, [.i32 bits]⟩ [.localGet 0, .globalSet index] []) =
      (.ok [], { store with
        globals := store.globals.setIfInBounds address ⟨cell.type, .i32 bits, hasType⟩ }) := by
  rw [run_localGet (.i32 bits) rfl]
  exact run_globalSet haddress hcell hasType

theorem runCode_i64Setter (haddress : scope.globals[index.toNat]? = some address)
    (hcell : store.globals[address]? = some cell) {high low : UInt32}
    (hasType : (Value.i64 (high.toUInt64 <<< 32 ||| low.toUInt64)).hasType cell.type.value) :
    store.run (runCode invoke ⟨scope, [.i32 high, .i32 low]⟩
      [.localGet 0, .i64ExtendI32U, .i64Const 32, .i64Shl,
        .localGet 1, .i64ExtendI32U, .i64Or, .globalSet index] []) =
      (.ok [], { store with
        globals := store.globals.setIfInBounds address ⟨cell.type, _, hasType⟩ }) := by
  rw [run_localGet (.i32 high) rfl]
  exact run_globalSet haddress hcell hasType

end Code

/-- A call of a function that has code. -/
theorem run_invoke {depth : Nat} {address : Address} {args : List Value} {type : FuncType}
    {scope : Scope} {body : List Instr}
    (hfunction : store.functions[address]? = some (.code type scope body))
    (h : store.run (runCode (Exec.invoke depth) ⟨scope, args⟩ body []) = (.ok stack, next)) :
    store.run (Exec.invoke (depth + 1) address args) =
      (.ok (stack.take type.results.length).reverse, next) := by
  rw [Exec.invoke, Store.run_bind_of_ok (Run.run_function hfunction)]
  simp only
  rw [Store.run_bind_of_ok h]
  rfl

end Exec

/-- A call from outside of a function of the expected type. -/
theorem Run.run_callTyped [Host] {store next : Store} {address : Address} {args : List Value}
    {type : FuncType} {scope : Scope} {body : List Instr} (stack : Exec.Stack)
    (hfunction : store.functions[address]? = some (.code type scope body))
    (h : ∀ depth, store.run (Exec.runCode (Exec.invoke depth) ⟨scope, args⟩ body []) =
      (.ok stack, next)) :
    store.run (Run.callTyped type address args) =
      (.ok (stack.take type.results.length).reverse, next) := by
  rw [callTyped, Store.run_bind_of_ok (run_function hfunction)]
  simp only [Callable.type, if_true]
  exact Exec.run_invoke hfunction (h 99999)

/-! ### Accessors -/

section Accessors

variable [Host] {store : Store} {scope : Scope} {address globalAddress : Address} {index : UInt32}
  {cell : GlobalCell}

theorem run_i32Getter {bits : UInt32}
    (hfunction : store.functions[address]? =
      some (.code Signature.getter.type scope [.globalGet index]))
    (haddress : scope.globals[index.toNat]? = some globalAddress)
    (hcell : store.globals[globalAddress]? = some cell) (hvalue : cell.value = .i32 bits) :
    store.run (Run.callTyped Signature.getter.type address []) = (.ok [.i32 bits], store) := by
  exact Run.run_callTyped [.i32 bits] hfunction fun _ =>
    Exec.runCode_i32Getter haddress hcell hvalue

theorem run_i64GetterHigh {bits : UInt64}
    (hfunction : store.functions[address]? = some (.code Signature.getter.type scope
      [.globalGet index, .i64Const 32, .i64ShrU, .i32WrapI64]))
    (haddress : scope.globals[index.toNat]? = some globalAddress)
    (hcell : store.globals[globalAddress]? = some cell) (hvalue : cell.value = .i64 bits) :
    store.run (Run.callTyped Signature.getter.type address []) =
      (.ok [.i32 (bits >>> 32).toUInt32], store) := by
  exact Run.run_callTyped [.i32 (bits >>> 32).toUInt32] hfunction fun _ =>
    Exec.runCode_i64GetterHigh haddress hcell hvalue

theorem run_i64GetterLow {bits : UInt64}
    (hfunction : store.functions[address]? = some (.code Signature.getter.type scope
      [.globalGet index, .i32WrapI64]))
    (haddress : scope.globals[index.toNat]? = some globalAddress)
    (hcell : store.globals[globalAddress]? = some cell) (hvalue : cell.value = .i64 bits) :
    store.run (Run.callTyped Signature.getter.type address []) =
      (.ok [.i32 bits.toUInt32], store) := by
  exact Run.run_callTyped [.i32 bits.toUInt32] hfunction fun _ =>
    Exec.runCode_i64GetterLow haddress hcell hvalue

theorem run_i32Setter {bits : UInt32}
    (hfunction : store.functions[address]? = some (.code Signature.i32Setter.type scope
      [.localGet 0, .globalSet index]))
    (haddress : scope.globals[index.toNat]? = some globalAddress)
    (hcell : store.globals[globalAddress]? = some cell)
    (hasType : (Value.i32 bits).hasType cell.type.value) :
    store.run (Run.callTyped Signature.i32Setter.type address [.i32 bits]) =
      (.ok [], { store with
        globals := store.globals.setIfInBounds globalAddress ⟨cell.type, .i32 bits, hasType⟩ }) := by
  exact Run.run_callTyped [] hfunction fun _ => Exec.runCode_i32Setter haddress hcell hasType

theorem run_i64Setter {high low : UInt32}
    (hfunction : store.functions[address]? = some (.code Signature.i64Setter.type scope
      [.localGet 0, .i64ExtendI32U, .i64Const 32, .i64Shl,
        .localGet 1, .i64ExtendI32U, .i64Or, .globalSet index]))
    (haddress : scope.globals[index.toNat]? = some globalAddress)
    (hcell : store.globals[globalAddress]? = some cell)
    (hasType : (Value.i64 (high.toUInt64 <<< 32 ||| low.toUInt64)).hasType cell.type.value) :
    store.run (Run.callTyped Signature.i64Setter.type address [.i32 high, .i32 low]) =
      (.ok [], { store with
        globals := store.globals.setIfInBounds globalAddress ⟨cell.type, _, hasType⟩ }) := by
  exact Run.run_callTyped [] hfunction fun _ => Exec.runCode_i64Setter haddress hcell hasType

end Accessors

/-! ### The functions of a type -/

namespace IntType

variable (index : UInt32)

theorem i32Getter_mem :
    ⟨.i32Getter index, .getter, [.globalGet index]⟩ ∈ i32.accessorFunctions index := by
  simp [accessorFunctions]

theorem i32Setter_mem :
    ⟨.i32Setter index, .i32Setter, [.localGet 0, .globalSet index]⟩ ∈
      i32.accessorFunctions index := by
  simp [accessorFunctions]

theorem i64GetterHigh_mem :
    ⟨.i64GetterHigh index, .getter, [.globalGet index, .i64Const 32, .i64ShrU, .i32WrapI64]⟩ ∈
      i64.accessorFunctions index := by
  simp [accessorFunctions]

theorem i64GetterLow_mem :
    ⟨.i64GetterLow index, .getter, [.globalGet index, .i32WrapI64]⟩ ∈
      i64.accessorFunctions index := by
  simp [accessorFunctions]

theorem i64Setter_mem :
    ⟨.i64Setter index, .i64Setter, [.localGet 0, .i64ExtendI32U, .i64Const 32, .i64Shl,
      .localGet 1, .i64ExtendI32U, .i64Or, .globalSet index]⟩ ∈ i64.accessorFunctions index := by
  simp [accessorFunctions]

end IntType

/-- An accessor serves one global, by one function. -/
theorem IntType.eq_of_accessor {type other : IntType} {index otherIndex : UInt32}
    {function otherFunction : AccessorFunction} (h : function ∈ type.accessorFunctions index)
    (h' : otherFunction ∈ other.accessorFunctions otherIndex)
    (heq : function.accessor = otherFunction.accessor) :
    type = other ∧ index = otherIndex ∧ function = otherFunction := by
  cases type <;> cases other <;>
    simp only [accessorFunctions, List.mem_cons, List.not_mem_nil, or_false] at h h'
  · rcases h with rfl | rfl <;> rcases h' with rfl | rfl <;> cases heq <;> exact ⟨rfl, rfl, rfl⟩
  · rcases h with rfl | rfl <;> rcases h' with rfl | rfl | rfl <;> cases heq
  · rcases h with rfl | rfl | rfl <;> rcases h' with rfl | rfl <;> cases heq
  · rcases h with rfl | rfl | rfl <;> rcases h' with rfl | rfl | rfl <;> cases heq <;>
      exact ⟨rfl, rfl, rfl⟩

end WasmSnapshot
