import WasmSnapshot.Proofs.Host.Run
import WasmSnapshot.Host.Instance

/-! Whatever code runs, and however it ends, what it does to the store by itself is no more than to
write to globals and memories and to grow memories. So the store that it leaves stands in every
relation to the one it began with that these allow, and the calls of functions whose code is not
known: one case for each instruction, and from there by the code and by the depth of calls. In
particular it extends that store. -/

namespace WasmSnapshot

namespace Exec

variable [Host] {R : Store → Store → Prop} {invoke : Address → List Value → Run (List Value)}
  {frame : Frame}

instance (stack : Stack) : Within Eq (pop32 stack) := by
  unfold pop32
  split <;> infer_instance

instance (stack : Stack) : Within Eq (pop64 stack) := by
  unfold pop64
  split <;> infer_instance

instance (op : UInt32 → UInt32 → Run UInt32) [∀ a b, Within Eq (op a b)] (stack : Stack) :
    Within Eq (binary32 op stack) := by
  unfold binary32
  infer_instance

instance (op : UInt64 → UInt64 → UInt64) (stack : Stack) : Within Eq (binary64 op stack) := by
  unfold binary64
  infer_instance

instance (a b : UInt32) : Within Eq (divideSigned a b) := by
  unfold divideSigned
  infer_instance

instance (space : List Address) (index : UInt32) : Within Eq (resolve space index) := by
  unfold resolve
  infer_instance

instance (access : MemArg) (stack : Stack) : Within Eq (load frame access stack) := by
  unfold load memoryAddress
  infer_instance

instance (typeIndex tableIndex slot : UInt32) :
    Within Eq (indirectCallee frame typeIndex tableIndex slot) := by
  have htype (type : Option CompositeType) (function : Callable) (address : Address) :
      Within Eq (match type with
        | some (.func type) =>
          if function.type = type then pure address else throw .indirectCallTypeMismatch
        | _ => throw .invalidCode : Run Address) := by
    split <;> infer_instance
  unfold indirectCallee
  infer_instance

/-- A relation that allows whatever code can do to a store. -/
class Allows (R : Store → Store → Prop) : Prop extends StoreOrder R where
  setGlobal (address : Address) (value : Value) : Within R (Run.setGlobal address value)
  writeMemory (address : Address) (start : Nat) (bytes : Bytes) :
    Within R (Run.writeMemory address start bytes)
  growMemory (frame : Frame) (index : UInt32) (stack : Stack) :
    Within R (growMemory frame index stack)

attribute [instance] Allows.setGlobal Allows.writeMemory Allows.growMemory

section Allows

variable [Allows R]

instance (access : MemArg) (stack : Stack) : Within R (store frame access stack) := by
  unfold store memoryAddress
  infer_instance

variable [∀ address args, Within R (invoke address args)]

instance (address : Address) (stack : Stack) : Within R (callWith invoke address stack) := by
  unfold callWith
  infer_instance

/-- One instruction. -/
instance (stack : Stack) (instr : Instr) : Within R (step invoke frame stack instr) := by
  cases instr <;> simp only [step] <;> try infer_instance
  case globalSet index =>
    split <;> infer_instance

omit [Allows R] [∀ address args, Within R (invoke address args)] in
theorem runCode_cons {instr : Instr} (h : instr ≠ .ret) (code : List Instr) (stack : Stack) :
    runCode invoke frame (instr :: code) stack =
      step invoke frame stack instr >>= runCode invoke frame code := by
  cases instr <;> first | rfl | exact absurd rfl h

/-- Code, by its instructions. -/
instance (code : List Instr) (stack : Stack) : Within R (runCode invoke frame code stack) := by
  induction code generalizing stack with
  | nil => exact inferInstanceAs (Within R (pure stack))
  | cons instr code ih =>
    by_cases hret : instr = .ret
    · subst hret
      exact inferInstanceAs (Within R (pure stack))
    · rw [runCode_cons hret]
      infer_instance

omit [∀ address args, Within R (invoke address args)] in
/-- Calls, by the depth that they may have. -/
instance [∀ address args, Within R (Host.call address args)] (depth : Nat) (address : Address)
    (args : List Value) : Within R (Exec.invoke depth address args) := by
  induction depth generalizing address args with
  | zero => exact inferInstanceAs (Within R (throw RuntimeError.callDepthExceeded))
  | succ depth ih =>
    have hbody (callee : Callable) : Within R (match callee with
        | .constant _ results => pure results
        | .foreign _ => Host.call address args
        | .code type scope body => do
          let stack ← runCode (Exec.invoke depth) ⟨scope, args⟩ body []
          pure (stack.take type.results.length).reverse : Run (List Value)) := by
      split <;> infer_instance
    unfold Exec.invoke
    infer_instance

omit [∀ address args, Within R (invoke address args)] in
instance (scope : Scope) (code : List Instr) : Within R (evalConst scope code) := by
  have hresult (stack : Stack) : Within R (match stack with
      | value :: _ => pure value
      | [] => throw .invalidCode : Run Value) := by
    split <;> infer_instance
  unfold evalConst
  infer_instance

omit [∀ address args, Within R (invoke address args)] in
instance (scope : Scope) (bytes : Bytes) : Within R (evalBytes scope bytes) := by
  unfold evalBytes
  infer_instance

end Allows

end Exec

section Calls

variable [Host] {R : Store → Store → Prop} [Exec.Allows R]
  [∀ address args, Within R (Host.call address args)]

instance (address : Address) (args : List Value) : Within R (Run.call address args) := by
  unfold Run.call
  infer_instance

instance (type : FuncType) (address : Address) (args : List Value) :
    Within R (Run.callTyped type address args) := by
  unfold Run.callTyped
  infer_instance

end Calls

instance [Host] (address : Address) (args : List Value) :
    Within Store.Extends (Host.call address args) := ⟨Host.call_extends address args⟩

/-! ### Relations that allow it -/

section Relations

variable [Host]

theorem Memory.grow?_eq_some {memory grown : Memory} {added : Nat}
    (h : memory.grow? added = some grown) :
    grown = { memory with pages := memory.pages ++ Array.replicate added Page.zeros } ∧
      memory.pages.size + added ≤ memory.limit := by
  unfold Memory.grow? at h
  split at h
  · next hroom =>
    cases h
    exact ⟨rfl, by simpa using (Bool.and_eq_true_iff.1 hroom).1⟩
  · cases h

theorem Exec.size_of_grow? {memory grown : Memory} {added : Nat}
    (h : memory.grow? added = some grown) : grown.pages.size = memory.pages.size + added := by
  obtain ⟨rfl, -⟩ := Memory.grow?_eq_some h
  simp

instance : Exec.Allows Store.Updates where
  setGlobal _ _ := inferInstance
  writeMemory _ _ _ := inferInstance
  growMemory frame index stack := by
    have hgrow (address : Address) (added : UInt32) (stack : Exec.Stack) : Within Store.Updates (do
        let memory ← Run.memory address
        match memory.grow? added.toNat with
        | some grown => do
          Run.setMemory address grown
          pure (Value.i32 (UInt32.ofNat memory.pages.size) :: stack)
        | none => pure (.i32 (-1) :: stack) : Run Exec.Stack) := by
      refine Run.within_part_bind fun store memory h => ?_
      split
      · next grown hgrown =>
        exact Store.Updates.setMemory h (by rw [Exec.size_of_grow? hgrown]; omega)
      · exact Store.Updates.refl store
    unfold Exec.growMemory
    infer_instance

instance : Exec.Allows Store.Extends where
  setGlobal _ _ := inferInstance
  writeMemory _ _ _ := inferInstance
  growMemory _ _ _ := inferInstance

/-- Both stores have the same tables. -/
def Store.SameTables (before after : Store) : Prop := after.tables = before.tables

instance : StoreOrder Store.SameTables := ⟨fun _ => rfl, fun h1 h2 => Eq.trans h2 h1⟩

instance (address : Address) (memory : Memory) :
    Within Store.SameTables (Run.setMemory address memory) := ⟨fun _ => rfl⟩

instance : Exec.Allows Store.SameTables where
  setGlobal _ _ := Run.within_part_bind fun store cell _ => by split <;> rfl
  writeMemory _ _ _ := Run.within_part_bind fun store memory _ => by split <;> rfl
  growMemory frame index stack := by
    have hgrow (memory : Memory) (address : Address) (added : UInt32) (stack : Exec.Stack) :
        Within Store.SameTables (match memory.grow? added.toNat with
          | some grown => do
            Run.setMemory address grown
            pure (Value.i32 (UInt32.ofNat memory.pages.size) :: stack)
          | none => pure (.i32 (-1) :: stack) : Run Exec.Stack) := by
      split <;> infer_instance
    unfold Exec.growMemory
    infer_instance

end Relations

/-! ### Instances -/

namespace Instance

variable [Host] {m : Module} {scope : Scope}

instance (types : List CompositeType) (type : ImportType) :
    Within Store.Extends (freshItem types type) := by
  cases type <;> simp only [freshItem] <;> infer_instance

instance (types : List CompositeType) (provided : String → String → Option Extern) (item : Import) :
    Within Store.Extends (importItem types provided item) := by
  unfold importItem
  split <;> infer_instance

instance (function : UInt32 × List Instr) : Within Store.Extends (addOwnFunction scope function) := by
  unfold addOwnFunction
  infer_instance

instance (global : Global) : Within Store.Extends (addOwnGlobal scope global) := by
  have hvalue (value : Value) :
      Within Store.Extends (if hasType : value.hasType global.type.value then do
        let _address ← Run.addGlobal ⟨global.type, value, hasType⟩
      else throw .invalidCode : Run Unit) := by
    split <;> infer_instance
  unfold addOwnGlobal
  infer_instance

instance : Within Store.Extends (addOwnItems m scope) := by
  unfold addOwnItems
  infer_instance

instance : Within Eq (exportsOf m scope) := by
  unfold exportsOf
  infer_instance

instance (offset : List Instr) : Within Store.Updates (segmentStart scope offset) := by
  have hvalue (value : Value) : Within Store.Updates (match value with
      | .i32 start => pure start.toNat
      | _ => throw .invalidCode : Run Nat) := by
    split <;> infer_instance
  unfold segmentStart
  infer_instance

instance (segment : ElementSegment) : Within Store.Updates (writeElements scope segment) := by
  have hwrite (start : Nat) (address : Address) : Within Store.Updates (do
      let table ← Run.table address
      let functions ← segment.functions.mapM fun f => some <$> Exec.resolve scope.functions f
      if start + functions.length ≤ table.slots.size then
        if table.holdsFunctions then
          let slots := table.slots.extract 0 start ++ functions.toArray ++
            table.slots.extract (start + functions.length) table.slots.size
          Run.setTable address { table with slots }
        else throw .elementTypeMismatch
      else throw .tableOutOfBounds : Run Unit) := by
    refine Run.within_part_bind fun store table h => ?_
    rw [Store.run_bind]
    split
    · next functions next hfunctions =>
      cases (Within.of_run hfunctions : store = next)
      split
      · next hle =>
        split
        · refine Store.Updates.setTable h (.of_size_eq rfl ?_)
          simp only [Array.size_append, Array.size_extract, List.size_toArray]
          omega
        · exact Store.Updates.refl store
      · exact Store.Updates.refl store
    · next error next hfunctions =>
      cases (Within.of_run hfunctions : store = next)
      exact Store.Updates.refl store
  unfold writeElements
  infer_instance

instance (segment : DataSegment) : Within Store.Updates (writeData scope segment) := by
  unfold writeData
  infer_instance

instance : Within Store.Extends (callStart m scope) := by
  unfold callStart
  split <;> infer_instance

instance (provided : String → String → Option Extern) :
    Within Store.Extends (ofModule m provided) := by
  unfold ofModule
  refine Within.bind inferInstance fun imported => Within.bind inferInstance fun store => ?_
  refine Within.bind inferInstance fun _ => Within.bind inferInstance fun exports => ?_
  infer_instance

end Instance

end WasmSnapshot
