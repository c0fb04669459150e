import WasmSnapshot.Binary.Section
import WasmSnapshot.Module.Entries

/-! Modules, decoded in full: what the sections of a binary module say, entry by entry. All their code
is of instructions that are known here, which is what it takes to run them. Most modules hold other
code, too; what these declare can be told without it. -/

namespace WasmSnapshot

/-- A decoded module. -/
structure Module where
  /-- The types, those within groups one by one. -/
  types : List CompositeType
  imports : List Import
  /-- The type index of each function of the module. -/
  functions : List UInt32
  tables : List TableType
  memories : List MemoryType
  globals : List Global
  exports : List Export
  /-- The function that is called when the module is instantiated. -/
  start : Option UInt32
  elements : List ElementSegment
  /-- The code of each function of the module. -/
  code : List (List Instr)
  data : List DataSegment
  deriving DecidableEq, Repr

namespace Module

/-- The entries of all sections of a kind, in order. -/
def entries? {α : Type} (sections : List Section) (kind : SectionKind) (entry : Reader α) :
    Option (List α) := do
  let parts ← (sections.filter (·.id = kind.id)).mapM fun s =>
    (Reader.counted entry).whole s.contents
  pure parts.flatten

/-- The start function, of which there is at most one. -/
def start? (sections : List Section) : Option (Option UInt32) :=
  match sections.filter (·.id = SectionKind.start.id) with
  | [] => some none
  | [s] => some <$> Leb128.index.whole s.contents
  | _ => none

/-- The module with the given sections, if all its code is known. -/
def ofSections? (sections : List Section) : Option Module := do
  let groups ← entries? sections .types SubType.readGroup
  let imports ← entries? sections .imports Import.read
  let functions ← entries? sections .functions Leb128.index
  let tables ← entries? sections .tables TableType.read
  let memories ← entries? sections .memories MemoryType.read
  let globals ← entries? sections .globals Global.read
  let exports ← entries? sections .exports Export.read
  let start ← start? sections
  let elements ← entries? sections .elements ElementSegment.read
  let code ← entries? sections .code Instr.readBody
  let data ← entries? sections .data DataSegment.read
  pure {
    types := groups.flatten.map (·.composite)
    imports, functions, tables, memories, globals, exports, start, elements, code, data }

/-- The module that a file holds, if all its code is known. -/
def ofBytes? (bytes : Bytes) : Option Module :=
  match Encoding.read bytes with
  | some (.core, rest) => do ofSections? (← Reader.toEnd Section.read rest)
  | _ => none

/-- The type of functions at an index, if it is one of functions. -/
def funcType? (types : List CompositeType) (index : UInt32) : Option FuncType :=
  match types[index.toNat]? with
  | some (.func type) => some type
  | _ => none

/-- Whether every function has code, no name is exported twice, and the limits of all tables and
memories are in range. -/
def isConsistent (m : Module) : Bool :=
  m.functions.length = m.code.length && (m.exports.map (·.name)).Nodup &&
    m.tables.all (·.limits.within TableType.maxSlots) &&
    m.memories.all (·.limits.within MemoryType.maxPages)

/-- The module that a file holds, if it can be run here. -/
def compile? (bytes : Bytes) : Option Module := do
  let m ← ofBytes? bytes
  guard m.isConsistent
  pure m

end Module

end WasmSnapshot
