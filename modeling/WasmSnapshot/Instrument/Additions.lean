import WasmSnapshot.Accessor.Function
import WasmSnapshot.Instrument.Entries
import WasmSnapshot.Instrument.Outline
import WasmSnapshot.Selection

/-! What is added to a module: signatures, accessor functions and exports.

An accessor function takes an entry in three sections. They are added in one step, so the entry at
each place of the function section, of the code section and of the exports of accessors belongs to
the same function, and its index is known from the number of functions before it. -/

namespace WasmSnapshot

/-- The entries to be added to a module, section by section. -/
structure Additions where
  /-- The text that the names of all exports begin with. -/
  symbol : String
  /-- The type index of the first signature that is added. -/
  firstType : UInt32
  /-- The index of the next function that is added. -/
  nextFunction : UInt32
  signatures : Array Signature := #[]
  /-- The type index of each function. -/
  functions : Array UInt32 := #[]
  code : Array (List Instr) := #[]
  exports : Array Export := #[]
  deriving DecidableEq, Repr

namespace Additions

/-- Adds signatures. -/
def addSignatures (additions : Additions) (signatures : List Signature) : Additions :=
  { additions with signatures := additions.signatures ++ signatures.toArray }

/-- Adds an export of the item with the given index. -/
def addExport (additions : Additions) (accessor : Accessor) (kind : ExternKind)
    (index : UInt32) : Additions :=
  let entry := { name := accessor.exportName additions.symbol, kind, index }
  { additions with exports := additions.exports.push entry }

/-- Adds a function together with its type, its code and its export. -/
def addFunction (additions : Additions) (function : AccessorFunction) :
    Except InstrumentError Additions :=
  let index := additions.nextFunction
  let offset := function.signature.offset
  if UInt32.size ≤ index.toNat + 1 then .error (.tooManyEntries .functions)
  else if UInt32.size ≤ additions.firstType.toNat + offset.toNat then
    .error (.tooManyEntries .types)
  else
    let added := { additions with
      nextFunction := index + 1
      functions := additions.functions.push (additions.firstType + offset)
      code := additions.code.push function.code }
    .ok (added.addExport function.accessor .func index)

/-- The written entries for the sections of a kind. -/
def entries (additions : Additions) : SectionKind → Entries
  | .types => .ofList Signature.encode additions.signatures.toList
  | .functions => .ofList Instr.encodeIndex additions.functions.toList
  | .exports => .ofList Export.encode additions.exports.toList
  | .code => .ofList Instr.encodeBody additions.code.toList
  | _ => ⟨0, []⟩

/-- The globals that get accessors, with their types. -/
def exposedGlobals (selection : Selection) (outline : Outline) : List (UInt32 × IntType) :=
  outline.globals.filterMap fun global =>
    if global.type.isMutable && selection.selectsGlobal global.index then
      (IntType.ofValueType? global.type.value).map (global.index, ·)
    else none

/-- The functions for all globals that get accessors. -/
def accessorFunctions (selection : Selection) (outline : Outline) : List AccessorFunction :=
  (exposedGlobals selection outline).flatMap fun (index, type) => type.accessorFunctions index

/-- The indices of the functions that a module declares itself. -/
def ownFunctions (outline : Outline) : List UInt32 :=
  (List.range outline.ownFunctions.toNat).map fun n =>
    outline.importedFunctions + UInt32.ofNat n

/-- The additions before any function: the signatures, if there is a section or a use for them,
and the exports of what the module holds already. -/
def ofItems (selection : Selection) (symbol : String) (outline : Outline) : Additions :=
  let start : Additions := {
    symbol
    firstType := outline.typeCount
    nextFunction := outline.importedFunctions + outline.ownFunctions }
  let signed :=
    if outline.hasSection .types || !(exposedGlobals selection outline).isEmpty then
      start.addSignatures Signature.inOrder
    else start
  let withMemory :=
    match outline.memory with
    | some index => if selection.memory then signed.addExport .memory .memory index else signed
    | none => signed
  let withTable :=
    match outline.table with
    | some index =>
      if selection.table then withMemory.addExport .table .table index else withMemory
    | none => withMemory
  (ownFunctions outline).foldl
    (fun additions index => additions.addExport (.function index) .func index) withTable

/-- All that is added to a module with the given outline. -/
def ofOutline (selection : Selection) (symbol : String) (outline : Outline) :
    Except InstrumentError Additions :=
  if outline.importedFunctions.toNat + outline.ownFunctions.toNat < UInt32.size then
    (accessorFunctions selection outline).foldlM addFunction
      (ofItems selection symbol outline)
  else .error (.tooManyEntries .functions)

end Additions

end WasmSnapshot
