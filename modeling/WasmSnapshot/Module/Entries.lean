import WasmSnapshot.Binary.Name
import WasmSnapshot.Module.Instr
import WasmSnapshot.Module.Operator

/-! Entries of the sections that describe what a module imports, defines and exports. -/

namespace WasmSnapshot

/-- The kinds of item that cross the border of a module. -/
inductive ExternKind where
  | func
  | table
  | memory
  | global
  | tag
  deriving DecidableEq, Repr

namespace ExternKind

/-- The byte of a kind. -/
def code : ExternKind → UInt8
  | func => 0
  | table => 1
  | memory => 2
  | global => 3
  | tag => 4

/-- The kind that a byte stands for. -/
def read : Reader ExternKind := do
  match ← Reader.byte with
  | 0 => pure func
  | 1 => pure table
  | 2 => pure memory
  | 3 => pure global
  | 4 => pure tag
  | _ => failure

end ExternKind

/-- What an import asks for. -/
inductive ImportType where
  | func (type : UInt32)
  | table (type : TableType)
  | memory (type : MemoryType)
  | global (type : GlobalType)
  | tag (type : UInt32)
  deriving DecidableEq, Repr

namespace ImportType

/-- The kind of item that is asked for. -/
def kind : ImportType → ExternKind
  | func _ => .func
  | table _ => .table
  | memory _ => .memory
  | global _ => .global
  | tag _ => .tag

/-- A kind and the type that goes with it. -/
def read : Reader ImportType := do
  match ← ExternKind.read with
  | .func => func <$> Leb128.index
  | .table => table <$> TableType.read
  | .memory => memory <$> MemoryType.read
  | .global => global <$> GlobalType.read
  | .tag => do
    Reader.expect 0
    tag <$> Leb128.index

end ImportType

/-- An import: where it comes from and what it is. -/
structure Import where
  module : String
  name : String
  type : ImportType
  deriving DecidableEq, Repr

/-- An entry of the import section. -/
def Import.read : Reader Import := do
  let module ← Name.read
  let name ← Name.read
  let type ← ImportType.read
  pure { module, name, type }

/-- A global that a module defines: its type, and the code of its first value as it stands in the
module, which may be any operators up to the byte that ends an expression. -/
structure Global where
  type : GlobalType
  init : Bytes
  deriving DecidableEq, Repr

/-- An entry of the global section. -/
def Global.read : Reader Global := do
  let type ← GlobalType.read
  let init ← Reader.taken (Reader.upTo Instr.endByte Operator.skip)
  pure { type, init }

/-- An export: a name for an item of the module. -/
structure Export where
  name : String
  kind : ExternKind
  index : UInt32
  deriving DecidableEq, Repr

namespace Export

/-- An entry of the export section. -/
def read : Reader Export := do
  let name ← Name.read
  let kind ← ExternKind.read
  let index ← Leb128.index
  pure { name, kind, index }

/-- The written form of an entry of the export section. -/
def encode (e : Export) : Bytes :=
  Name.encode e.name ++ e.kind.code :: Instr.encodeIndex e.index

end Export

/-- Functions that are put into a table when a module is instantiated. -/
structure ElementSegment where
  table : UInt32
  offset : List Instr
  functions : List UInt32
  deriving DecidableEq, Repr

/-- An active segment of function indices, for the first table (kind 0) or a table that it names
(kind 2). -/
def ElementSegment.read : Reader ElementSegment := do
  match ← Leb128.size with
  | 0 => do
    let offset ← Instr.readExpr
    let functions ← Reader.counted Leb128.index
    pure { table := 0, offset, functions }
  | 2 => do
    let table ← Leb128.index
    let offset ← Instr.readExpr
    Reader.expect 0
    let functions ← Reader.counted Leb128.index
    pure { table, offset, functions }
  | _ => failure

/-- Bytes that are put into a memory when a module is instantiated. -/
structure DataSegment where
  memory : UInt32
  offset : List Instr
  bytes : Bytes
  deriving DecidableEq, Repr

/-- An active segment, for the first memory (kind 0) or a memory that it names (kind 2). -/
def DataSegment.read : Reader DataSegment := do
  match ← Leb128.size with
  | 0 => do
    let offset ← Instr.readExpr
    let bytes ← Reader.take (← Leb128.size)
    pure { memory := 0, offset, bytes }
  | 2 => do
    let memory ← Leb128.index
    let offset ← Instr.readExpr
    let bytes ← Reader.take (← Leb128.size)
    pure { memory, offset, bytes }
  | _ => failure

end WasmSnapshot
