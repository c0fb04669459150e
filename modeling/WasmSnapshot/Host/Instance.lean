import WasmSnapshot.Host.Exec
import WasmSnapshot.Module.Basic

/-! Instances, and how a module becomes one.

Imports that nobody provides are filled in by fresh items of the declared type, all zeros. Segments
are written in the order of the module, and what an instantiation that fails has written stays. -/

namespace WasmSnapshot

/-- An item that an instance exports, by its address. -/
inductive Extern where
  | function (address : Address)
  | table (address : Address)
  | memory (address : Address)
  | global (address : Address)
  deriving DecidableEq, Repr

/-- Whether an item is one of the items of a store. -/
def Extern.isIn (store : Store) : Extern → Bool
  | function address => address < store.functions.size
  | table address => address < store.tables.size
  | memory address => address < store.memories.size
  | global address => address < store.globals.size

/-- The kind of an item. -/
def Extern.kind : Extern → ExternKind
  | function _ => .func
  | table _ => .table
  | memory _ => .memory
  | global _ => .global

/-- An instance of a module. -/
structure Instance where
  scope : Scope
  /-- The exports in the order of the module. -/
  exports : List (String × Extern)
  deriving DecidableEq, Repr

namespace Instance

variable [Host]

/-- The export of the given name. -/
def export? (inst : Instance) (name : String) : Option Extern := inst.exports.lookup name

/-- A fresh item for an import, all zeros. -/
def freshItem (types : List CompositeType) : ImportType → Run Extern
  | .func index => do
    let type ← Run.require .invalidCode (Module.funcType? types index)
    .function <$> Run.addFunction (.constant type (type.results.map Value.zero))
  | .table type => .table <$> Run.addTable (.ofType type)
  | .memory type => .memory <$> Run.addMemory (.ofType type)
  | .global type =>
    .global <$> Run.addGlobal ⟨type, .zero type.value, Value.hasType_zero type.value⟩
  | .tag _ => throw .invalidCode

/-- The item for an import: the one that is provided, which has to be of the kind that is asked
for, or a fresh one. -/
def importItem (types : List CompositeType) (provided : String → String → Option Extern)
    (item : Import) : Run Extern := do
  match provided item.module item.name with
  | some found =>
    if found.isIn (← get) && found.kind = item.type.kind then pure found
    else throw .incompatibleImport
  | none => freshItem types item.type

/-- The addresses of `count` items that come next in a part of the store of size `used`. -/
def nextAddresses (used count : Nat) : List Address := (List.range count).map (used + ·)

/-- What indices will mean in an instance that has the given imports, once its own items are added
to the store as it is now. -/
def scopeOf (m : Module) (imported : List Extern) (store : Store) : Scope where
  types := m.types
  functions := (imported.filterMap fun | .function a => some a | _ => none) ++
    nextAddresses store.functions.size m.functions.length
  tables := (imported.filterMap fun | .table a => some a | _ => none) ++
    nextAddresses store.tables.size m.tables.length
  memories := (imported.filterMap fun | .memory a => some a | _ => none) ++
    nextAddresses store.memories.size m.memories.length
  globals := (imported.filterMap fun | .global a => some a | _ => none) ++
    nextAddresses store.globals.size m.globals.length

/-- Adds a function of an instance to the store. -/
def addOwnFunction (scope : Scope) (function : UInt32 × List Instr) : Run Unit := do
  let type ← Run.require .invalidCode (Module.funcType? scope.types function.1)
  let _address ← Run.addFunction (.code type scope function.2)

/-- Adds a global of an instance to the store, with its first value. -/
def addOwnGlobal (scope : Scope) (global : Global) : Run Unit := do
  let value ← Exec.evalBytes scope global.init
  if hasType : value.hasType global.type.value then
    let _address ← Run.addGlobal ⟨global.type, value, hasType⟩
  else throw .invalidCode

/-- Adds the items that a module defines to the store, in the order of their indices. -/
def addOwnItems (m : Module) (scope : Scope) : Run Unit := do
  (m.functions.zip m.code).forM (addOwnFunction scope)
  m.tables.forM fun type => do let _address ← Run.addTable (.ofType type)
  m.memories.forM fun type => do let _address ← Run.addMemory (.ofType type)
  m.globals.forM (addOwnGlobal scope)

/-- The item that an export names. -/
def externOf? (scope : Scope) (e : Export) : Option Extern :=
  match e.kind with
  | .func => .function <$> scope.functions[e.index.toNat]?
  | .table => .table <$> scope.tables[e.index.toNat]?
  | .memory => .memory <$> scope.memories[e.index.toNat]?
  | .global => .global <$> scope.globals[e.index.toNat]?
  | .tag => none

/-- The exports of an instance. -/
def exportsOf (m : Module) (scope : Scope) : Run (List (String × Extern)) :=
  m.exports.mapM fun e => do
    pure (e.name, ← Run.require .invalidCode (externOf? scope e))

/-- The first slot or byte that a segment fills. -/
def segmentStart (scope : Scope) (offset : List Instr) : Run Nat := do
  match ← Exec.evalConst scope offset with
  | .i32 start => pure start.toNat
  | _ => throw .invalidCode

/-- Puts the functions of a segment into its table. -/
def writeElements (scope : Scope) (segment : ElementSegment) : Run Unit := do
  let start ← segmentStart scope segment.offset
  let address ← Exec.resolve scope.tables segment.table
  let table ← Run.table address
  let functions ← segment.functions.mapM fun f => some <$> Exec.resolve scope.functions f
  if start + functions.length ≤ table.slots.size then
    if table.holdsFunctions then
      let slots := table.slots.extract 0 start ++ functions.toArray ++
        table.slots.extract (start + functions.length) table.slots.size
      Run.setTable address { table with slots }
    else throw .elementTypeMismatch
  else throw .tableOutOfBounds

/-- Puts the bytes of a segment into its memory. -/
def writeData (scope : Scope) (segment : DataSegment) : Run Unit := do
  let start ← segmentStart scope segment.offset
  let address ← Exec.resolve scope.memories segment.memory
  Run.writeMemory address start segment.bytes

/-- Calls the start function, if there is one. -/
def callStart (m : Module) (scope : Scope) : Run Unit :=
  match m.start with
  | none => pure ()
  | some index => do
    let _results ← Run.call (← Exec.resolve scope.functions index) []

/-- A new instance of a module. -/
def ofModule (m : Module) (provided : String → String → Option Extern) : Run Instance := do
  let imported ← m.imports.mapM (importItem m.types provided)
  let scope := scopeOf m imported (← get)
  addOwnItems m scope
  let exports ← exportsOf m scope
  m.elements.forM (writeElements scope)
  m.data.forM (writeData scope)
  callStart m scope
  pure { scope, exports }

end Instance

end WasmSnapshot
