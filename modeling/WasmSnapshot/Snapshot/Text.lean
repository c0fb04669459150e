import WasmSnapshot.Json.Reader
import WasmSnapshot.Selection
import WasmSnapshot.Snapshot.Basic

/-! Snapshots and selections as JSON text.

Both are objects, in which unknown keys are skipped, or lists of their fields in order. Memory is
written only where a snapshot has one. -/

namespace WasmSnapshot

namespace Snapshot

/-- The names of the fields, in order. -/
def fieldNames : List String := ["memory", "table", "globals", "symbol"]

/-- An entry of a list that may have holes. -/
def holeOr {α : Type} (entry : α → Json) : Option α → Json
  | some value => entry value
  | none => .null

/-- The fields of a snapshot. -/
def toJson (snapshot : Snapshot) : Json :=
  let words (memory : Array UInt32) : Json :=
    .array (memory.toList.map fun word => .ofNat word.toNat)
  let memory := match snapshot.memory with
    | some memory => [("memory", words memory)]
    | none => []
  .ofFields (memory ++ [
    ("table", .array (snapshot.table.map (holeOr fun index => .ofNat index.toNat))),
    ("globals", .array (snapshot.globals.map (holeOr GlobalValue.toJson))),
    ("symbol", .ofString snapshot.symbol)])

/-- The snapshot that a JSON value stands for. Only the symbol has to be there; only the memory
may be `null`. -/
def ofJson? (json : Json) : Option Snapshot := do
  let record ← json.record? fieldNames
  let memory ← Json.field? record "memory" (Json.nullable? (Json.array? Json.uint32?)) (some none)
  let table ← Json.field? record "table" (Json.array? (Json.nullable? Json.uint32?)) (some [])
  let globals ←
    Json.field? record "globals" (Json.array? (Json.nullable? GlobalValue.ofJson?)) (some [])
  let symbol ← Json.field? record "symbol" Json.string? none
  pure { memory := memory.map List.toArray, table, globals, symbol }

/-- The JSON text of a snapshot. -/
def toText (snapshot : Snapshot) : String := String.ofList snapshot.toJson.text

/-- The snapshot that a JSON text stands for. -/
def ofText? (text : String) : Option Snapshot := do
  ofJson? (← Json.read? text.toList)

end Snapshot

namespace Selection

/-- The names of the fields, in order. -/
def fieldNames : List String := ["memory", "table", "globals"]

/-- The fields of a selection. -/
def toJson (selection : Selection) : Json :=
  .ofFields [
    ("memory", .bool selection.memory),
    ("table", .bool selection.table),
    ("globals", .array (selection.globals.map .bool))]

/-- The selection that a JSON value stands for. Absent fields select everything. -/
def ofJson? (json : Json) : Option Selection := do
  let record ← json.record? fieldNames
  let memory ← Json.field? record "memory" Json.bool? (some all.memory)
  let table ← Json.field? record "table" Json.bool? (some all.table)
  let globals ← Json.field? record "globals" (Json.array? Json.bool?) (some all.globals)
  pure { memory, table, globals }

/-- The JSON text of a selection. -/
def toText (selection : Selection) : String := String.ofList selection.toJson.text

/-- The selection that a JSON text stands for. -/
def ofText? (text : String) : Option Selection := do
  ofJson? (← Json.read? text.toList)

end Selection

namespace GlobalValue

/-- The value of a global that a JSON text stands for. -/
def ofText? (text : String) : Option GlobalValue := do
  ofJson? (← Json.read? text.toList)

end GlobalValue

end WasmSnapshot
