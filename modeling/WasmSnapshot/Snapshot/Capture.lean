import WasmSnapshot.Accessor.Exports
import WasmSnapshot.Accessor.Function
import WasmSnapshot.Snapshot.Basic
import WasmSnapshot.Snapshot.Error

/-! Capturing the state of an instance through its accessors.

The memory is copied word by word, each table slot is matched against the functions of the module,
and each getter is called in the order of the exports. Functions that are not the module's own have
no name in a snapshot, so their slots are captured as holes. -/

namespace WasmSnapshot

/-- The halves of a global of 64 bits that have been read so far. -/
structure Halves where
  high : Option Int32 := none
  low : Option Int32 := none
  deriving DecidableEq, Repr

namespace Capture

variable [Host]

/-- What the getters have returned so far. -/
structure Readings where
  globals : List (Option GlobalValue) := []
  halves : IndexMap Halves := .empty
  deriving DecidableEq, Repr

/-- The result of a getter. -/
def callGetter (address : Address) : Access Int32 := do
  match ← Access.ofRun (Run.callTyped Signature.getter.type address []) with
  | [.i32 bits] => pure bits.toInt32
  | _ => throw (.runtime .invalidCode)

/-- Changes the halves of a global. -/
def Readings.addHalf (readings : Readings) (index : UInt32) (change : Halves → Halves) :
    Readings :=
  let before := (readings.halves.get? index).getD {}
  { readings with halves := readings.halves.insert index (change before) }

/-- Takes in what an accessor reads, if it is a getter. -/
def readAccessor (readings : Readings) (entry : Accessor × Address) : Access Readings := do
  match entry.1 with
  | .i32Getter index => do
    let value ← callGetter entry.2
    pure { readings with
      globals := Snapshot.setAt readings.globals index.toNat (.i32 value) }
  | .i64GetterHigh index => do
    let value ← callGetter entry.2
    pure (readings.addHalf index fun halves => { halves with high := some value })
  | .i64GetterLow index => do
    let value ← callGetter entry.2
    pure (readings.addHalf index fun halves => { halves with low := some value })
  | _ => pure readings

/-- Joins the two halves of a global, both of which have to be there. -/
def joinHalves (symbol : String) (globals : List (Option GlobalValue))
    (entry : UInt32 × Halves) : Except AccessError (List (Option GlobalValue)) :=
  let (index, halves) := entry
  match halves.high, halves.low with
  | some high, some low => .ok (Snapshot.setAt globals index.toNat (.i64 high low))
  | none, _ => .error (.missingExport ((Accessor.i64GetterHigh index).exportName symbol))
  | some _, none => .error (.missingExport ((Accessor.i64GetterLow index).exportName symbol))

/-- The values of the globals, once all getters have been called. -/
def Readings.join (readings : Readings) (symbol : String) :
    Except AccessError (List (Option GlobalValue)) :=
  readings.halves.entries.foldlM (joinHalves symbol) readings.globals

/-- The words of the memory, if it is exported. -/
def readMemory (exports : AccessorExports) : Access (Option (Array UInt32)) := do
  match exports.memory with
  | some address => do
    let memory ← Access.ofRun (Run.memory address)
    pure (some memory.words)
  | none => pure none

/-- The functions of the module in the slots of the table, if it is exported. -/
def readTable (exports : AccessorExports) : Access (List (Option UInt32)) := do
  match exports.table with
  | some address => do
    let table ← Access.ofRun (Run.table address)
    pure (table.functions.map fun slot => slot.bind exports.indexOf?)
  | none => pure []

end Capture

variable [Host]

/-- The state of an instance, as far as its accessors under `symbol` reach. -/
def Snapshot.capture (symbol : String) (inst : Instance) : Access Snapshot := do
  let exports := AccessorExports.ofInstance symbol inst
  let memory ← Capture.readMemory exports
  let table ← Capture.readTable exports
  let readings ← exports.globals.foldlM Capture.readAccessor {}
  let globals ← Access.ofExcept (readings.join symbol)
  pure { memory, table, globals, symbol }

end WasmSnapshot
