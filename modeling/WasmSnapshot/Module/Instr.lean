import WasmSnapshot.Module.Types

/-! Instructions of straight-line code, with their binary form in both directions.

An expression is a sequence of instructions up to the byte `0b`. Constant expressions and function
bodies are read by the same reader; a block is read as an instruction of its own, so the first
`0b` ends the expression. -/

namespace WasmSnapshot

/-- Alignment and offset of an access to memory. -/
structure MemArg where
  align : UInt32
  offset : UInt32
  deriving DecidableEq, Repr

/-- An instruction. Numbers that a program computes with are kept as words. -/
inductive Instr where
  | unreachable
  | nop
  | block
  | ret
  | call (function : UInt32)
  | callIndirect (type table : UInt32)
  | drop
  | localGet (index : UInt32)
  | globalGet (index : UInt32)
  | globalSet (index : UInt32)
  | i32Load (access : MemArg)
  | i32Store (access : MemArg)
  | memoryGrow (memory : UInt32)
  | i32Const (value : Int32)
  | i64Const (value : Int64)
  | f32Const (bits : UInt32)
  | f64Const (bits : UInt64)
  | v128Const (bytes : Bytes)
  | refNull (type : HeapType)
  | refFunc (function : UInt32)
  | refI31
  | i32Add
  | i32Sub
  | i32Mul
  | i32DivS
  | i64Add
  | i64Sub
  | i64Mul
  | i64Or
  | i64Shl
  | i64ShrU
  | i32WrapI64
  | i64ExtendI32U
  deriving DecidableEq, Repr

namespace Instr

/-- The byte that ends an expression. -/
def endByte : UInt8 := 0x0b

/-- Alignment, then offset. -/
def readMemArg : Reader MemArg := do
  let align ← Leb128.index
  let offset ← Leb128.index
  pure { align, offset }

instance : Reader.NonGrowing readMemArg := by
  unfold readMemArg
  infer_instance

/-- The instruction of an opcode with its immediates. Opcodes that stand for no known instruction
fail. -/
def readImmediates : UInt8 → Reader Instr
  | 0x00 => pure unreachable
  | 0x01 => pure nop
  | 0x02 => do
    Reader.expect 0x40
    pure block
  | 0x0f => pure ret
  | 0x10 => call <$> Leb128.index
  | 0x11 => do
    let type ← Leb128.index
    let table ← Leb128.index
    pure (callIndirect type table)
  | 0x1a => pure drop
  | 0x20 => localGet <$> Leb128.index
  | 0x23 => globalGet <$> Leb128.index
  | 0x24 => globalSet <$> Leb128.index
  | 0x28 => i32Load <$> readMemArg
  | 0x36 => i32Store <$> readMemArg
  | 0x40 => memoryGrow <$> Leb128.index
  | 0x41 => do
    let value ← Leb128.signed 32
    pure (i32Const (Int32.ofInt value))
  | 0x42 => do
    let value ← Leb128.signed 64
    pure (i64Const (Int64.ofInt value))
  | 0x43 => do
    let bytes ← Reader.take 4
    pure (f32Const (UInt32.ofNat bytes.littleEndian))
  | 0x44 => do
    let bytes ← Reader.take 8
    pure (f64Const (UInt64.ofNat bytes.littleEndian))
  | 0x6a => pure i32Add
  | 0x6b => pure i32Sub
  | 0x6c => pure i32Mul
  | 0x6d => pure i32DivS
  | 0x7c => pure i64Add
  | 0x7d => pure i64Sub
  | 0x7e => pure i64Mul
  | 0x84 => pure i64Or
  | 0x86 => pure i64Shl
  | 0x88 => pure i64ShrU
  | 0xa7 => pure i32WrapI64
  | 0xad => pure i64ExtendI32U
  | 0xd0 => refNull <$> HeapType.read
  | 0xd2 => refFunc <$> Leb128.index
  | 0xfb => do
    guard ((← Leb128.size) = 0x1c)
    pure refI31
  | 0xfd => do
    guard ((← Leb128.size) = 0x0c)
    v128Const <$> Reader.take 16
  | _ => failure

instance (opcode : UInt8) : Reader.NonGrowing (readImmediates opcode) := by
  unfold readImmediates
  split <;> infer_instance

/-- One instruction. -/
def read : Reader Instr := do
  readImmediates (← Reader.byte)

instance : Reader.Consuming read :=
  inferInstanceAs (Reader.Consuming (Reader.byte >>= readImmediates))

/-- The instructions of an expression and the byte that ends it. -/
def readExpr : Reader (List Instr) := Reader.upTo endByte read

/-- The shortest form of an index. -/
def encodeIndex (index : UInt32) : Bytes := Leb128.encode index.toNat

/-- The shortest form of a heap type. -/
def encodeHeapType : HeapType → Bytes
  | .defined index => Leb128.encodeSigned index
  | .abstract true code => [0x65, code]
  | .abstract false code => [code]

/-- The shortest form of an instruction. -/
def encode : Instr → Bytes
  | unreachable => [0x00]
  | nop => [0x01]
  | block => [0x02, 0x40]
  | ret => [0x0f]
  | call function => 0x10 :: encodeIndex function
  | callIndirect type table => 0x11 :: (encodeIndex type ++ encodeIndex table)
  | drop => [0x1a]
  | localGet index => 0x20 :: encodeIndex index
  | globalGet index => 0x23 :: encodeIndex index
  | globalSet index => 0x24 :: encodeIndex index
  | i32Load access => 0x28 :: (encodeIndex access.align ++ encodeIndex access.offset)
  | i32Store access => 0x36 :: (encodeIndex access.align ++ encodeIndex access.offset)
  | memoryGrow memory => 0x40 :: encodeIndex memory
  | i32Const value => 0x41 :: Leb128.encodeSigned value.toInt
  | i64Const value => 0x42 :: Leb128.encodeSigned value.toInt
  | f32Const bits => 0x43 :: Bytes.ofLittleEndian 4 bits.toNat
  | f64Const bits => 0x44 :: Bytes.ofLittleEndian 8 bits.toNat
  | v128Const bytes => 0xfd :: 0x0c :: bytes
  | refNull type => 0xd0 :: encodeHeapType type
  | refFunc function => 0xd2 :: encodeIndex function
  | refI31 => [0xfb, 0x1c]
  | i32Add => [0x6a]
  | i32Sub => [0x6b]
  | i32Mul => [0x6c]
  | i32DivS => [0x6d]
  | i64Add => [0x7c]
  | i64Sub => [0x7d]
  | i64Mul => [0x7e]
  | i64Or => [0x84]
  | i64Shl => [0x86]
  | i64ShrU => [0x88]
  | i32WrapI64 => [0xa7]
  | i64ExtendI32U => [0xad]

/-- The written form of an expression. -/
def encodeExpr (code : List Instr) : Bytes := code.flatMap encode ++ [endByte]

/-- The contents of an entry of the code section: a list of locals, which is empty, and the
code. -/
def readCode : Reader (List Instr) := do
  guard ((← Leb128.size) = 0)
  readExpr

/-- An entry of the code section, with its size before it. -/
def readBody : Reader (List Instr) := Reader.sized readCode

/-- The written form of a function body without locals. -/
def encodeBody (code : List Instr) : Bytes :=
  let contents := 0x00 :: encodeExpr code
  Leb128.encode contents.length ++ contents

end Instr

end WasmSnapshot
