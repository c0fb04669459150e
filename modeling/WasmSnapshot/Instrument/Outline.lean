import WasmSnapshot.Instrument.Error
import WasmSnapshot.Module.Entries

/-! The outline of a module: what has to be known of it before anything can be added.

An outline is taken section by section, in the order of the file. Types, imports and globals are
read entry by entry; of the other sections only the form around their entries is checked, so a
module may be outlined whose functions could not be decoded. -/

namespace WasmSnapshot

/-- A global that a module defines, under its index among all globals. -/
structure OwnGlobal where
  index : UInt32
  type : GlobalType
  deriving DecidableEq, Repr

/-- Counts and positions of the items of a module. -/
structure Outline where
  /-- The ids of the sections, in the order of the file. -/
  sectionIds : List UInt8 := []
  /-- The number of types, those within groups counted one by one. -/
  typeCount : UInt32 := 0
  importedFunctions : UInt32 := 0
  importedTables : UInt32 := 0
  importedMemories : UInt32 := 0
  importedGlobals : UInt32 := 0
  /-- The number of functions that the module declares itself. -/
  ownFunctions : UInt32 := 0
  /-- The index of the first table of the module itself. -/
  table : Option UInt32 := none
  /-- The index of the first memory of the module itself. -/
  memory : Option UInt32 := none
  globals : List OwnGlobal := []
  deriving DecidableEq, Repr

namespace Outline

/-- Whether the module has a section of this kind. -/
def hasSection (outline : Outline) (kind : SectionKind) : Bool :=
  outline.sectionIds.contains kind.id

/-- The contents of a section whose entries may be anything: their number, then any bytes. -/
def readOpaqueEntries : Reader Nat := do
  let count ← Leb128.size
  let _entries ← Reader.rest
  pure count

/-- An entry of a code section, which may hold anything: its size, then that many bytes. -/
def readOpaqueBody : Reader Bytes := do
  Reader.take (← Leb128.size)

/-- The contents of a code section. -/
def readOpaqueBodies : Reader (List Bytes) := Reader.counted readOpaqueBody

/-- The contents of a custom section: a name, and anything after it. -/
def readCustom : Reader String := do
  let name ← Name.read
  let _payload ← Reader.rest
  pure name

/-- The value of a reader on the contents of a section, all of which it has to read. -/
def contentsOf {α : Type} (s : Section) (contents : Reader α) : Except InstrumentError α :=
  match contents.whole s.contents with
  | some value => .ok value
  | none => .error .malformed

/-- Counts the types of an entry of the type section, which are `added` more. -/
def addTypes (outline : Outline) (added : Nat) : Except InstrumentError Outline :=
  if outline.typeCount.toNat + added < UInt32.size then
    .ok { outline with typeCount := outline.typeCount + UInt32.ofNat added }
  else .error (.tooManyEntries .types)

/-- Counts an import. -/
def addImport (outline : Outline) (item : Import) : Outline :=
  match item.type.kind with
  | .func => { outline with importedFunctions := outline.importedFunctions + 1 }
  | .table => { outline with importedTables := outline.importedTables + 1 }
  | .memory => { outline with importedMemories := outline.importedMemories + 1 }
  | .global => { outline with importedGlobals := outline.importedGlobals + 1 }
  | .tag => outline

/-- The globals of a section, under indices that begin at the number of imported globals. -/
def ownGlobals (outline : Outline) (globals : List Global) : List OwnGlobal :=
  globals.zipIdx.map fun (global, position) =>
    ⟨outline.importedGlobals + UInt32.ofNat position, global.type⟩

/-- Takes in the contents of a section of a known kind. -/
def addContents (outline : Outline) (s : Section) :
    SectionKind → Except InstrumentError Outline
  | .types => do
    let groups ← contentsOf s (Reader.counted SubType.readGroup)
    groups.foldlM (fun outline group => outline.addTypes group.length) outline
  | .imports => do
    let imports ← contentsOf s (Reader.counted Import.read)
    pure (imports.foldl addImport outline)
  | .functions => do
    let count ← contentsOf s readOpaqueEntries
    pure { outline with ownFunctions := UInt32.ofNat count }
  | .tables => do
    let count ← contentsOf s readOpaqueEntries
    pure (if 0 < count then { outline with table := some outline.importedTables } else outline)
  | .memories => do
    let count ← contentsOf s readOpaqueEntries
    pure (if 0 < count then { outline with memory := some outline.importedMemories } else outline)
  | .globals => do
    let globals ← contentsOf s (Reader.counted Global.read)
    pure { outline with globals := outline.globals ++ outline.ownGlobals globals }
  | .start | .dataCount => do
    let _value ← contentsOf s Leb128.size
    pure outline
  | .code => do
    let _bodies ← contentsOf s readOpaqueBodies
    pure outline
  | .tags | .exports | .elements | .data => do
    let _count ← contentsOf s readOpaqueEntries
    pure outline

/-- Takes in the next section of the file. -/
def addSection (outline : Outline) (s : Section) : Except InstrumentError Outline := do
  let outline := { outline with sectionIds := outline.sectionIds ++ [s.id] }
  match s.kind? with
  | some kind => outline.addContents s kind
  | none =>
    if s.id = Section.customId then
      let _name ← contentsOf s readCustom
    pure outline

/-- The outline of a module with the given sections. -/
def ofSections (sections : List Section) : Except InstrumentError Outline :=
  sections.foldlM addSection {}

end Outline

/-- The sections of a core module. -/
def Section.readModule (bytes : Bytes) : Except InstrumentError (List Section) :=
  match Encoding.read bytes with
  | none => .error .malformed
  | some (.component, _) => .error .unsupportedEncoding
  | some (.core, rest) =>
    match Reader.toEnd Section.read rest with
    | some sections => .ok sections
    | none => .error .malformed

end WasmSnapshot
