import WasmSnapshot.Snapshot.GlobalValue

/-! Snapshots: the state of an instance at one point in time, in plain integers. -/

namespace WasmSnapshot

/-- The state of an instance as far as its accessors reach. -/
structure Snapshot where
  /-- The memory in little-endian words, if it was exported. -/
  memory : Option (Array UInt32) := none
  /-- For each slot of the table the function of the module that it holds, if it holds one. -/
  table : List (Option UInt32) := []
  /-- The values of the globals by index, as far as they have accessors. -/
  globals : List (Option GlobalValue) := []
  /-- What the names of the accessors begin with. -/
  symbol : String := ""
  deriving DecidableEq, Repr

namespace Snapshot

/-- The snapshot that holds nothing, for accessors under `symbol`. -/
def empty (symbol : String) : Snapshot := { symbol }

instance : Inhabited Snapshot := ⟨empty ""⟩

/-- The value of the global at `index`, if the snapshot holds one. -/
def global? (snapshot : Snapshot) (index : UInt32) : Option GlobalValue :=
  (snapshot.globals[index.toNat]?).join

/-- `values` with `value` at `index`, after holes where the list was too short. -/
def setAt {α : Type} (values : List (Option α)) (index : Nat) (value : α) : List (Option α) :=
  (values ++ List.replicate (index + 1 - values.length) none).set index (some value)

/-- Records the value of the global at `index`. -/
def setGlobal (snapshot : Snapshot) (index : UInt32) (value : GlobalValue) : Snapshot :=
  { snapshot with globals := setAt snapshot.globals index.toNat value }

end Snapshot

end WasmSnapshot
