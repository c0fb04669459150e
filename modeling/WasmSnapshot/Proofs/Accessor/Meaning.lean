import WasmSnapshot.Proofs.Accessor.Function
import WasmSnapshot.Proofs.Module.Entries

/-! The code of accessors against the values of a snapshot. Two parties split numbers of 64 bits:
the code, which shifts without sign, and the snapshot, which shifts with sign and puts the lower half
back without. Both do the same to each number, whichever of its halves are negative. -/

namespace WasmSnapshot

/-! ### Halves with sign -/

theorem toUInt32_shiftRight (value : Int64) :
    (value >>> 32).toInt32.toUInt32 = (value.toUInt64 >>> 32).toUInt32 := by
  apply UInt32.toBitVec_inj.mp
  have hshift : (32 : Int64).toBitVec.smod 64 = 32 := by decide
  rw [Int32.toBitVec_toUInt32, Int64.toBitVec_toInt32, Int64.toBitVec_shiftRight, hshift,
    UInt64.toBitVec_toUInt32, UInt64.toBitVec_shiftRight, Int64.toBitVec_toUInt64]
  apply BitVec.eq_of_getLsbD_eq
  intro i hi
  -- Only bits from 32 on come down here, so the sign that fills up the rest is cut off.
  have hsum : 32 + i < 64 := by omega
  simp [BitVec.getElem_signExtend, BitVec.getElem_sshiftRight, hi, hsum, show i < 64 by omega]

theorem toUInt32_toInt32 (value : Int64) : value.toInt32.toUInt32 = value.toUInt64.toUInt32 := by
  apply UInt32.toBitVec_inj.mp
  rw [Int32.toBitVec_toUInt32, Int64.toBitVec_toInt32, UInt64.toBitVec_toUInt32,
    Int64.toBitVec_toUInt64, BitVec.signExtend_eq_setWidth_of_le _ (by decide)]

namespace GlobalValue

theorem ofInt64_eq (value : Int64) :
    ofInt64 value =
      .i64 (value.toUInt64 >>> 32).toUInt32.toInt32 value.toUInt64.toUInt32.toInt32 := by
  rw [ofInt64, ← toUInt32_shiftRight, ← toUInt32_toInt32]
  rfl

theorem toUInt64_toInt64 (high low : Int32) :
    (GlobalValue.i64 high low).toInt64.toUInt64 =
      high.toUInt32.toUInt64 <<< 32 ||| low.toUInt32.toUInt64 := by
  apply UInt64.toBitVec_inj.mp
  have hshift : (32 : Int64).toBitVec.smod 64 = 32 := by decide
  rw [Int64.toBitVec_toUInt64, toInt64, Int64.toBitVec_or, Int64.toBitVec_shiftLeft, hshift,
    Int32.toBitVec_toInt64, UInt64.toBitVec_toInt64]
  apply BitVec.eq_of_getLsbD_eq
  intro i hi
  by_cases hlow : i < 32
  · simp [hlow, hi]
  · -- The upper half is shifted up by as many bits as its sign fills.
    simp [BitVec.getElem_signExtend, hlow, hi, show i - 32 < 32 by omega]

theorem toInt64_ofInt64 (value : Int64) : (ofInt64 value).toInt64 = value := by
  have hbits : (ofInt64 value).toInt64.toUInt64 = value.toUInt64 := by
    rw [ofInt64_eq, toUInt64_toInt64]
    exact joined_halves value.toUInt64
  exact congrArg UInt64.toInt64 hbits

theorem ofInt64_toInt64 (high low : Int32) : ofInt64 (i64 high low).toInt64 = i64 high low := by
  rw [ofInt64_eq, toUInt64_toInt64, high_joined, low_joined]
  rfl

end GlobalValue

/-! ### Functions from their written form -/

namespace Exec

variable [Host] {store next : Store} {depth : Nat} {scope : Scope} {type : FuncType} {entry : Bytes}
  {args : List Value} {code : List Instr} {stack : Stack}

/-- Runs a function from the entry of the code section that holds its body. -/
def runEntry (depth : Nat) (scope : Scope) (type : FuncType) (entry : Bytes) (args : List Value) :
    Run (List Value) := do
  let code ← Run.require .invalidCode (Instr.readBody.whole entry)
  let stack ← runCode (invoke depth) ⟨scope, args⟩ code []
  pure (stack.take type.results.length).reverse

theorem runEntry_eq (hread : Instr.readBody.whole entry = some code) :
    runEntry depth scope type entry args =
      (runCode (invoke depth) ⟨scope, args⟩ code [] >>= fun stack =>
        pure (stack.take type.results.length).reverse) := by
  rw [runEntry, hread]
  rfl

/-- A call of a function is a run of the entry that it was read from. -/
theorem run_invoke_of_entry {address : Address}
    (hfunction : store.functions[address]? = some (.code type scope code))
    (hread : Instr.readBody.whole entry = some code) :
    store.run (invoke (depth + 1) address args) =
      store.run (runEntry depth scope type entry args) := by
  rw [invoke, Store.run_bind_of_ok (Run.run_function hfunction), runEntry_eq hread]

end Exec

theorem AccessorFunction.Readable.whole_entry {function : AccessorFunction}
    (h : function.Readable) :
    Instr.readBody.whole (Instr.encodeBody function.code) = some function.code := by
  have hread := h.reads_body []
  rw [List.append_nil] at hread
  exact Reader.whole_of_eq_some hread

namespace IntType

variable [Host]

/-- Runs the function that serves an accessor of the global at `index`, from its written form. -/
def runAccessor (type : IntType) (depth : Nat) (scope : Scope) (index : UInt32)
    (accessor : Accessor) (args : List Value) : Run (List Value) := do
  let function ← Run.require .invalidCode
    ((type.accessorFunctions index).find? (·.accessor = accessor))
  Exec.runEntry depth scope function.signature.type (Instr.encodeBody function.code) args

variable {type : IntType} {store next : Store} {depth : Nat} {scope : Scope} {index : UInt32}
  {accessor : Accessor} {args : List Value} {function : AccessorFunction} {stack : Exec.Stack}

omit [Host] in
theorem find?_accessor (h : function ∈ type.accessorFunctions index) :
    (type.accessorFunctions index).find? (·.accessor = function.accessor) = some function := by
  have hsome : ((type.accessorFunctions index).find? (·.accessor = function.accessor)).isSome :=
    List.find?_isSome.2 ⟨function, h, decide_eq_true rfl⟩
  obtain ⟨found, hfound⟩ := Option.isSome_iff_exists.1 hsome
  have haccessor : found.accessor = function.accessor := by simpa using List.find?_some hfound
  obtain ⟨-, -, rfl⟩ := eq_of_accessor (List.mem_of_find?_eq_some hfound) h haccessor
  exact hfound

theorem run_runAccessor (depth : Nat) (args : List Value)
    (hmem : function ∈ type.accessorFunctions index)
    (h : store.run (Exec.runCode (Exec.invoke depth) ⟨scope, args⟩ function.code []) =
      (.ok stack, next)) :
    store.run (type.runAccessor depth scope index function.accessor args) =
      (.ok (stack.take function.signature.type.results.length).reverse, next) := by
  rw [runAccessor, find?_accessor hmem]
  change store.run (Exec.runEntry _ _ _ _ _) = _
  rw [Exec.runEntry_eq (readable_of_mem hmem).whole_entry, Store.run_bind_of_ok h]
  rfl

section Accessors

variable {address : Address} {cell : GlobalCell}
  (haddress : scope.globals[index.toNat]? = some address)
  (hcell : store.globals[address]? = some cell)

include haddress hcell

theorem run_i32Getter {bits : UInt32} (hvalue : cell.value = .i32 bits) :
    store.run (i32.runAccessor depth scope index (.i32Getter index) []) =
      (.ok [.i32 bits], store) := by
  have hrun := run_runAccessor depth [] (i32Getter_mem index)
    (Exec.runCode_i32Getter haddress hcell hvalue)
  exact hrun

theorem run_i32Setter {bits : UInt32} (hasType : (Value.i32 bits).hasType cell.type.value) :
    store.run (i32.runAccessor depth scope index (.i32Setter index) [.i32 bits]) =
      (.ok [], { store with
        globals := store.globals.setIfInBounds address ⟨cell.type, .i32 bits, hasType⟩ }) := by
  have hrun := run_runAccessor depth [.i32 bits] (i32Setter_mem index)
    (Exec.runCode_i32Setter haddress hcell hasType)
  exact hrun

theorem run_i64GetterHigh {bits : UInt64} (hvalue : cell.value = .i64 bits) :
    store.run (i64.runAccessor depth scope index (.i64GetterHigh index) []) =
      (.ok [.i32 (bits >>> 32).toUInt32], store) := by
  have hrun := run_runAccessor depth [] (i64GetterHigh_mem index)
    (Exec.runCode_i64GetterHigh haddress hcell hvalue)
  exact hrun

theorem run_i64GetterLow {bits : UInt64} (hvalue : cell.value = .i64 bits) :
    store.run (i64.runAccessor depth scope index (.i64GetterLow index) []) =
      (.ok [.i32 bits.toUInt32], store) := by
  have hrun := run_runAccessor depth [] (i64GetterLow_mem index)
    (Exec.runCode_i64GetterLow haddress hcell hvalue)
  exact hrun

theorem run_i64Setter {high low : UInt32}
    (hasType : (Value.i64 (high.toUInt64 <<< 32 ||| low.toUInt64)).hasType cell.type.value) :
    store.run (i64.runAccessor depth scope index (.i64Setter index) [.i32 high, .i32 low]) =
      (.ok [], { store with
        globals := store.globals.setIfInBounds address ⟨cell.type, _, hasType⟩ }) := by
  have hrun := run_runAccessor depth [.i32 high, .i32 low] (i64Setter_mem index)
    (Exec.runCode_i64Setter haddress hcell hasType)
  exact hrun

end Accessors

end IntType

/-- The code for the global at `index`, which is found at `address`, gives the halves of `value` and
takes halves that make up another number. -/
structure MeansI64 [Host] (depth : Nat) (scope : Scope) (index : UInt32) (store : Store)
    (address : Address) (cell : GlobalCell) (value : Int64) : Prop where
  get : ∃ high low, GlobalValue.ofInt64 value = .i64 high low ∧
    store.run (IntType.i64.runAccessor depth scope index (.i64GetterHigh index) []) =
      (.ok [.i32 high.toUInt32], store) ∧
    store.run (IntType.i64.runAccessor depth scope index (.i64GetterLow index) []) =
      (.ok [.i32 low.toUInt32], store)
  set : ∀ high low : Int32, ∃ written : GlobalCell, written.type = cell.type ∧
    written.value = .i64 (GlobalValue.i64 high low).toInt64.toUInt64 ∧
    store.run (IntType.i64.runAccessor depth scope index (.i64Setter index)
      [.i32 high.toUInt32, .i32 low.toUInt32]) =
      (.ok [], { store with globals := store.globals.setIfInBounds address written })
  get_set : ∀ high low : Int32, ∃ after,
    store.run (IntType.i64.runAccessor depth scope index (.i64Setter index)
      [.i32 high.toUInt32, .i32 low.toUInt32]) = (.ok [], after) ∧
    after.run (IntType.i64.runAccessor depth scope index (.i64GetterHigh index) []) =
      (.ok [.i32 high.toUInt32], after) ∧
    after.run (IntType.i64.runAccessor depth scope index (.i64GetterLow index) []) =
      (.ok [.i32 low.toUInt32], after)
  set_get : ∃ high low,
    store.run (IntType.i64.runAccessor depth scope index (.i64GetterHigh index) []) =
      (.ok [high], store) ∧
    store.run (IntType.i64.runAccessor depth scope index (.i64GetterLow index) []) =
      (.ok [low], store) ∧
    store.run (IntType.i64.runAccessor depth scope index (.i64Setter index) [high, low]) =
      (.ok [], store)

/-- The code for the global at `index`, which is found at `address`, gives and takes a word. -/
structure MeansI32 [Host] (depth : Nat) (scope : Scope) (index : UInt32) (store : Store)
    (address : Address) (cell : GlobalCell) (value : Int32) : Prop where
  get : store.run (IntType.i32.runAccessor depth scope index (.i32Getter index) []) =
    (.ok [.i32 value.toUInt32], store)
  set : ∀ word : Int32, ∃ written : GlobalCell, written.type = cell.type ∧
    written.value = .i32 word.toUInt32 ∧
    store.run (IntType.i32.runAccessor depth scope index (.i32Setter index) [.i32 word.toUInt32]) =
      (.ok [], { store with globals := store.globals.setIfInBounds address written })
  get_set : ∀ word : Int32, ∃ after,
    store.run (IntType.i32.runAccessor depth scope index (.i32Setter index) [.i32 word.toUInt32]) =
      (.ok [], after) ∧
    after.run (IntType.i32.runAccessor depth scope index (.i32Getter index) []) =
      (.ok [.i32 word.toUInt32], after)
  set_get : ∃ word,
    store.run (IntType.i32.runAccessor depth scope index (.i32Getter index) []) =
      (.ok [word], store) ∧
    store.run (IntType.i32.runAccessor depth scope index (.i32Setter index) [word]) =
      (.ok [], store)

section Meaning

variable {store : Store} {scope : Scope} {index : UInt32} {address : Address} {cell : GlobalCell}

theorem GlobalCell.hasType_i32 {bits : UInt32} (h : cell.value = .i32 bits) (other : UInt32) :
    (Value.i32 other).hasType cell.type.value := by
  have hasType := cell.hasType
  rw [h] at hasType
  cases htype : cell.type.value <;> rw [htype] at hasType <;> first | rfl | cases hasType

theorem GlobalCell.hasType_i64 {bits : UInt64} (h : cell.value = .i64 bits) (other : UInt64) :
    (Value.i64 other).hasType cell.type.value := by
  have hasType := cell.hasType
  rw [h] at hasType
  cases htype : cell.type.value <;> rw [htype] at hasType <;> first | rfl | cases hasType

theorem GlobalCell.getElem?_setIfInBounds (hcell : store.globals[address]? = some cell)
    (written : GlobalCell) :
    (store.globals.setIfInBounds address written)[address]? = some written := by
  obtain ⟨hlt, -⟩ := Array.getElem?_eq_some_iff.1 hcell
  exact Array.getElem?_setIfInBounds_self_of_lt hlt

theorem meansI64 [Host] (depth : Nat) (haddress : scope.globals[index.toNat]? = some address)
    (hcell : store.globals[address]? = some cell) {value : Int64}
    (hvalue : cell.value = .i64 value.toUInt64) :
    MeansI64 depth scope index store address cell value := by
  have hset (high low : UInt32) :
      store.run (IntType.i64.runAccessor depth scope index (.i64Setter index)
        [.i32 high, .i32 low]) =
        (.ok [], { store with
          globals := store.globals.setIfInBounds address ⟨cell.type, _,
            GlobalCell.hasType_i64 hvalue (high.toUInt64 <<< 32 ||| low.toUInt64)⟩ }) :=
    IntType.run_i64Setter haddress hcell _
  refine ⟨?_, ?_, ?_, ?_⟩
  · refine ⟨_, _, GlobalValue.ofInt64_eq value, ?_, ?_⟩
    · exact IntType.run_i64GetterHigh haddress hcell hvalue
    · exact IntType.run_i64GetterLow haddress hcell hvalue
  · intro high low
    refine ⟨_, ?_, ?_, hset high.toUInt32 low.toUInt32⟩
    · rfl
    · rw [GlobalValue.toUInt64_toInt64]
  · intro high low
    refine ⟨_, hset high.toUInt32 low.toUInt32, ?_, ?_⟩
    · have hhigh := high_joined high.toUInt32 low.toUInt32
      refine (IntType.run_i64GetterHigh haddress
        (GlobalCell.getElem?_setIfInBounds hcell _) rfl).trans ?_
      rw [hhigh]
    · have hlow := low_joined high.toUInt32 low.toUInt32
      refine (IntType.run_i64GetterLow haddress
        (GlobalCell.getElem?_setIfInBounds hcell _) rfl).trans ?_
      rw [hlow]
  · refine ⟨_, _, IntType.run_i64GetterHigh haddress hcell hvalue,
      IntType.run_i64GetterLow haddress hcell hvalue, ?_⟩
    refine (hset _ _).trans ?_
    have hjoined : cell.value = .i64 ((value.toUInt64 >>> 32).toUInt32.toUInt64 <<< 32 |||
        value.toUInt64.toUInt32.toUInt64) := by
      rw [joined_halves, hvalue]
    rw [GlobalCell.setIfInBounds_self hcell hjoined]

theorem meansI32 [Host] (depth : Nat) (haddress : scope.globals[index.toNat]? = some address)
    (hcell : store.globals[address]? = some cell) {value : Int32}
    (hvalue : cell.value = .i32 value.toUInt32) :
    MeansI32 depth scope index store address cell value := by
  have hget : store.run (IntType.i32.runAccessor depth scope index (.i32Getter index) []) =
      (.ok [.i32 value.toUInt32], store) := IntType.run_i32Getter haddress hcell hvalue
  have hset (word : UInt32) :
      store.run (IntType.i32.runAccessor depth scope index (.i32Setter index) [.i32 word]) =
        (.ok [], { store with
          globals := store.globals.setIfInBounds address
            ⟨cell.type, .i32 word, GlobalCell.hasType_i32 hvalue word⟩ }) :=
    IntType.run_i32Setter haddress hcell _
  refine ⟨hget, ?_, ?_, ?_⟩
  · intro word
    refine ⟨_, ?_, ?_, hset word.toUInt32⟩
    · rfl
    · rfl
  · intro word
    refine ⟨_, hset word.toUInt32, ?_⟩
    exact IntType.run_i32Getter haddress (GlobalCell.getElem?_setIfInBounds hcell _) rfl
  · refine ⟨_, hget, ?_⟩
    rw [hset, GlobalCell.setIfInBounds_self hcell hvalue]

/-- The written code of accessors, decoded and run on any store, means what recorded values mean. -/
theorem accessor_code_means [Host] (depth : Nat)
    (haddress : scope.globals[index.toNat]? = some address)
    (hcell : store.globals[address]? = some cell) :
    (∀ value : Int64, cell.value = .i64 value.toUInt64 →
      MeansI64 depth scope index store address cell value) ∧
    (∀ value : Int32, cell.value = .i32 value.toUInt32 →
      MeansI32 depth scope index store address cell value) ∧
    (∀ value : Int64, (GlobalValue.ofInt64 value).toInt64 = value) ∧
    ∀ high low : Int32,
      GlobalValue.ofInt64 (GlobalValue.i64 high low).toInt64 = .i64 high low :=
  ⟨fun _ => meansI64 depth haddress hcell, fun _ => meansI32 depth haddress hcell,
    GlobalValue.toInt64_ofInt64, GlobalValue.ofInt64_toInt64⟩

end Meaning

/-- A global of 64 bits at index 200, which takes two bytes, and one of 32 bits after it. -/
def wideScope : Scope := ⟨[], [], [], [], List.replicate 200 2 ++ [0, 1]⟩

def negativeI64 : GlobalCell := ⟨⟨.i64, true⟩, .i64 0x80000000ffffffff, rfl⟩

def negativeI32 : GlobalCell := ⟨⟨.i32, true⟩, .i32 0x80000000, rfl⟩

def wideStore : Store := { globals := #[negativeI64, negativeI32] }

theorem accessor_code_means_wide :
    (wideScope.globals[(200 : UInt32).toNat]? = some 0 ∧ wideStore.globals[0]? = some negativeI64 ∧
      negativeI64.value = .i64 (-0x7fffffff00000001 : Int64).toUInt64 ∧
      MeansI64 0 wideScope 200 wideStore 0 negativeI64 (-0x7fffffff00000001)) ∧
    (wideScope.globals[(201 : UInt32).toNat]? = some 1 ∧ wideStore.globals[1]? = some negativeI32 ∧
      negativeI32.value = .i32 (-0x80000000 : Int32).toUInt32 ∧
      MeansI32 0 wideScope 201 wideStore 1 negativeI32 (-0x80000000)) := by
  have haddress : wideScope.globals[(200 : UInt32).toNat]? = some 0 := by decide
  have haddress' : wideScope.globals[(201 : UInt32).toNat]? = some 1 := by decide
  have hcell : wideStore.globals[0]? = some negativeI64 := rfl
  have hcell' : wideStore.globals[1]? = some negativeI32 := rfl
  have hvalue : negativeI64.value = .i64 (-0x7fffffff00000001 : Int64).toUInt64 := by decide
  have hvalue' : negativeI32.value = .i32 (-0x80000000 : Int32).toUInt32 := by decide
  exact ⟨⟨haddress, hcell, hvalue, (accessor_code_means 0 haddress hcell).1 _ hvalue⟩,
    haddress', hcell', hvalue', (accessor_code_means 0 haddress' hcell').2.1 _ hvalue'⟩

end WasmSnapshot
