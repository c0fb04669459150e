import WasmSnapshot.Module.Types

/-! The operators of the binary format, as far as it takes to pass over them.

An operator is an opcode and its operands. Which operands belong to an opcode is a table: one for
the opcodes of a single byte, and one for the numbers that follow each of the bytes `fb`
(aggregates), `fc` (more on numbers, memories and tables), `fd` (vectors) and `fe` (atomic
accesses). -/

namespace WasmSnapshot

/-- Something that stands behind an opcode. -/
inductive Operand where
  /-- A number of 32 bits: an index, a label or a count. -/
  | number
  /-- A number in two's complement. -/
  | signed (width : Nat)
  /-- So many bytes of any value. -/
  | fixed (count : Nat)
  /-- A byte below `bound`. -/
  | below (bound : Nat)
  /-- The number 1. -/
  | one
  | heapType
  | valueType
  | blockType
  /-- Alignment, memory and offset of an access to memory. -/
  | access
  /-- The labels of a branch by number. -/
  | labels
  /-- The clauses of a block that catches exceptions. -/
  | catches
  /-- The clauses of a resumed continuation. -/
  | handlers
  deriving DecidableEq, Repr

namespace Operand

/-- The number of labels, the one that stands for all others apart. -/
def maxLabels : Nat := 131072

/-- The number of clauses of any kind. -/
def maxClauses : Nat := 10000

/-- The type of a block: none, a value type, or the index of a function type. The first byte tells
numbers of one byte that are negative from indices. -/
def readBlockType : Reader Unit := do
  let first ← Reader.peek
  if first = 0x40 then Reader.expect 0x40
  else if 0x40 < first ∧ first < 0x80 then
    let _type ← ValueType.read
  else
    guard (0 ≤ (← Leb128.signed 33))

/-- An access to memory. Bit 6 of the first number says that a memory is named, and what is left of
it is the logarithm of the alignment. -/
def readAccess : Reader Unit := do
  let flags ← Leb128.size
  if flags.testBit 6 then
    guard (flags - 64 < 64)
    let _memory ← Leb128.size
  else
    guard (flags < 64)
  let _offset ← Leb128.unsigned 64

/-- How many numbers follow the kind of a clause that catches exceptions: a tag, unless it catches
all of them, and a label. -/
def catchNumbers? : UInt8 → Option Nat
  | 0 | 1 => some 2
  | 2 | 3 => some 1
  | _ => none

/-- How many numbers follow the kind of a clause of a resumed continuation: a tag, and a label
unless it switches. -/
def handlerNumbers? : UInt8 → Option Nat
  | 0 => some 2
  | 1 => some 1
  | _ => none

/-- A clause: its kind, and as many numbers as go with it. -/
def readClause (numbers? : UInt8 → Option Nat) : Reader Unit := do
  match numbers? (← Reader.byte) with
  | some count => do
    let _numbers ← Reader.times Leb128.size count
  | none => failure

/-- Passes over an operand. -/
def skip : Operand → Reader Unit
  | number => do
    let _number ← Leb128.size
  | signed width => do
    let _number ← Leb128.signed width
  | fixed count => do
    let _bytes ← Reader.take count
  | below bound => do guard ((← Reader.byte).toNat < bound)
  | one => do guard ((← Leb128.size) = 1)
  | heapType => do
    let _type ← HeapType.read
  | valueType => do
    let _type ← ValueType.read
  | blockType => readBlockType
  | access => readAccess
  | labels => do
    let _labels ← Reader.countedUpTo maxLabels Leb128.size
    let _label ← Leb128.size
  | catches => do
    let _clauses ← Reader.countedUpTo maxClauses (readClause catchNumbers?)
  | handlers => do
    let _clauses ← Reader.countedUpTo maxClauses (readClause handlerNumbers?)

instance : Reader.NonGrowing readBlockType := by
  unfold readBlockType
  infer_instance

instance : Reader.NonGrowing readAccess := by
  unfold readAccess
  infer_instance

instance (numbers? : UInt8 → Option Nat) : Reader.NonGrowing (readClause numbers?) := by
  unfold readClause
  have (count : Option Nat) : Reader.NonGrowing (match count with
      | some count => do
        let _numbers ← Reader.times Leb128.size count
      | none => failure) := by
    split <;> infer_instance
  infer_instance

instance (operand : Operand) : Reader.NonGrowing operand.skip := by
  cases operand <;> unfold skip <;> infer_instance

end Operand

/-- Opcodes next to one another that have the same operands. -/
structure OpcodeRange where
  first : Nat
  last : Nat
  operands : List Operand
  deriving DecidableEq, Repr

namespace Operator

/-- The opcodes of a single byte. -/
def plain : List OpcodeRange := [
  ⟨0x00, 0x01, []⟩,
  -- Blocks and what divides them.
  ⟨0x02, 0x04, [.blockType]⟩,
  ⟨0x05, 0x05, []⟩,
  ⟨0x06, 0x06, [.blockType]⟩,
  ⟨0x07, 0x09, [.number]⟩,
  ⟨0x0a, 0x0b, []⟩,
  -- Branches, returns and calls.
  ⟨0x0c, 0x0d, [.number]⟩,
  ⟨0x0e, 0x0e, [.labels]⟩,
  ⟨0x0f, 0x0f, []⟩,
  ⟨0x10, 0x10, [.number]⟩,
  ⟨0x11, 0x11, [.number, .number]⟩,
  ⟨0x12, 0x12, [.number]⟩,
  ⟨0x13, 0x13, [.number, .number]⟩,
  ⟨0x14, 0x15, [.number]⟩,
  ⟨0x18, 0x18, [.number]⟩,
  ⟨0x19, 0x1b, []⟩,
  ⟨0x1c, 0x1c, [.one, .valueType]⟩,
  ⟨0x1f, 0x1f, [.blockType, .catches]⟩,
  -- Locals, globals, tables and memories.
  ⟨0x20, 0x26, [.number]⟩,
  ⟨0x28, 0x3e, [.access]⟩,
  ⟨0x3f, 0x40, [.number]⟩,
  -- Numbers.
  ⟨0x41, 0x41, [.signed 32]⟩,
  ⟨0x42, 0x42, [.signed 64]⟩,
  ⟨0x43, 0x43, [.fixed 4]⟩,
  ⟨0x44, 0x44, [.fixed 8]⟩,
  ⟨0x45, 0xc4, []⟩,
  -- References.
  ⟨0xd0, 0xd0, [.heapType]⟩,
  ⟨0xd1, 0xd1, []⟩,
  ⟨0xd2, 0xd2, [.number]⟩,
  ⟨0xd3, 0xd4, []⟩,
  ⟨0xd5, 0xd6, [.number]⟩,
  -- Continuations.
  ⟨0xe0, 0xe0, [.number]⟩,
  ⟨0xe1, 0xe1, [.number, .number]⟩,
  ⟨0xe2, 0xe2, [.number]⟩,
  ⟨0xe3, 0xe3, [.number, .handlers]⟩,
  ⟨0xe4, 0xe4, [.number, .number, .handlers]⟩,
  ⟨0xe5, 0xe5, [.number, .number]⟩]

/-- Structures, arrays, casts and small integers as references. -/
def aggregate : List OpcodeRange := [
  ⟨0x00, 0x01, [.number]⟩,
  ⟨0x02, 0x05, [.number, .number]⟩,
  ⟨0x06, 0x07, [.number]⟩,
  ⟨0x08, 0x0a, [.number, .number]⟩,
  ⟨0x0b, 0x0e, [.number]⟩,
  ⟨0x0f, 0x0f, []⟩,
  ⟨0x10, 0x10, [.number]⟩,
  ⟨0x11, 0x13, [.number, .number]⟩,
  ⟨0x14, 0x17, [.heapType]⟩,
  ⟨0x18, 0x19, [.below 4, .number, .heapType, .heapType]⟩,
  ⟨0x1a, 0x1e, []⟩]

/-- Conversions that do not trap, memories and tables as a whole, and wide arithmetic. -/
def bulk : List OpcodeRange := [
  ⟨0x00, 0x07, []⟩,
  ⟨0x08, 0x08, [.number, .number]⟩,
  ⟨0x09, 0x09, [.number]⟩,
  ⟨0x0a, 0x0a, [.number, .number]⟩,
  ⟨0x0b, 0x0b, [.number]⟩,
  ⟨0x0c, 0x0c, [.number, .number]⟩,
  ⟨0x0d, 0x0d, [.number]⟩,
  ⟨0x0e, 0x0e, [.number, .number]⟩,
  ⟨0x0f, 0x12, [.number]⟩,
  ⟨0x13, 0x16, []⟩]

/-- Vectors. The bound behind a lane is the number of lanes. -/
def vector : List OpcodeRange := [
  ⟨0x00, 0x0b, [.access]⟩,
  ⟨0x0c, 0x0c, [.fixed 16]⟩,
  ⟨0x0d, 0x0d, List.replicate 16 (.below 32)⟩,
  ⟨0x0e, 0x14, []⟩,
  ⟨0x15, 0x17, [.below 16]⟩,
  ⟨0x18, 0x1a, [.below 8]⟩,
  ⟨0x1b, 0x1c, [.below 4]⟩,
  ⟨0x1d, 0x1e, [.below 2]⟩,
  ⟨0x1f, 0x20, [.below 4]⟩,
  ⟨0x21, 0x22, [.below 2]⟩,
  ⟨0x23, 0x53, []⟩,
  ⟨0x54, 0x54, [.access, .below 16]⟩,
  ⟨0x55, 0x55, [.access, .below 8]⟩,
  ⟨0x56, 0x56, [.access, .below 4]⟩,
  ⟨0x57, 0x57, [.access, .below 2]⟩,
  ⟨0x58, 0x58, [.access, .below 16]⟩,
  ⟨0x59, 0x59, [.access, .below 8]⟩,
  ⟨0x5a, 0x5a, [.access, .below 4]⟩,
  ⟨0x5b, 0x5b, [.access, .below 2]⟩,
  ⟨0x5c, 0x5d, [.access]⟩,
  -- Arithmetic, with the numbers between that are not given out.
  ⟨0x5e, 0x99, []⟩,
  ⟨0x9b, 0xa1, []⟩,
  ⟨0xa3, 0xa4, []⟩,
  ⟨0xa7, 0xae, []⟩,
  ⟨0xb1, 0xb1, []⟩,
  ⟨0xb5, 0xba, []⟩,
  ⟨0xbc, 0xc1, []⟩,
  ⟨0xc3, 0xc4, []⟩,
  ⟨0xc7, 0xce, []⟩,
  ⟨0xd1, 0xd1, []⟩,
  ⟨0xd5, 0xe1, []⟩,
  ⟨0xe3, 0xed, []⟩,
  ⟨0xef, 0xff, []⟩,
  ⟨0x100, 0x113, []⟩]

/-- Atomic accesses to memories, globals, tables and aggregates. Those that are not to memories say
first how they are ordered. -/
def atomic : List OpcodeRange := [
  ⟨0x00, 0x02, [.access]⟩,
  ⟨0x03, 0x03, [.below 1]⟩,
  ⟨0x10, 0x4e, [.access]⟩,
  ⟨0x4f, 0x5b, [.below 2, .number]⟩,
  ⟨0x5c, 0x66, [.below 2, .number, .number]⟩,
  ⟨0x67, 0x71, [.below 2, .number]⟩,
  ⟨0x72, 0x72, []⟩]

/-- The table for the numbers behind a byte, if it opens opcodes of more than a byte. -/
def extension? : UInt8 → Option (List OpcodeRange)
  | 0xfb => some aggregate
  | 0xfc => some bulk
  | 0xfd => some vector
  | 0xfe => some atomic
  | _ => none

/-- The operands of an opcode, if a table has it. -/
def operands? (table : List OpcodeRange) (code : Nat) : Option (List Operand) :=
  OpcodeRange.operands <$> table.find? fun range => range.first ≤ code && code ≤ range.last

/-- Passes over the operands of an opcode. -/
def skipOperands (table : List OpcodeRange) (code : Nat) : Reader Unit :=
  match operands? table code with
  | some operands => operands.forM Operand.skip
  | none => failure

instance (table : List OpcodeRange) (code : Nat) : Reader.NonGrowing (skipOperands table code) := by
  have hall (operands : List Operand) : Reader.NonGrowing (operands.forM Operand.skip) := by
    induction operands with
    | nil => exact inferInstanceAs (Reader.NonGrowing (pure ()))
    | cons operand operands ih =>
      exact inferInstanceAs
        (Reader.NonGrowing (operand.skip >>= fun _ => operands.forM Operand.skip))
  unfold skipOperands
  split
  · exact hall _
  · infer_instance

/-- Passes over what follows the first byte of an operator. -/
def skipAfter (first : UInt8) : Reader Unit :=
  match extension? first with
  | some table => do skipOperands table (← Leb128.size)
  | none => skipOperands plain first.toNat

instance (first : UInt8) : Reader.NonGrowing (skipAfter first) := by
  unfold skipAfter
  split <;> infer_instance

/-- Passes over an operator. -/
def skip : Reader Unit := do
  skipAfter (← Reader.byte)

instance : Reader.Consuming skip :=
  inferInstanceAs (Reader.Consuming (Reader.byte >>= skipAfter))

end Operator

end WasmSnapshot
