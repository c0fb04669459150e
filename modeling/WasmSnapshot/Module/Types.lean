import WasmSnapshot.Binary.Leb128

/-! The types of a module: of values, functions, tables, memories and globals, and the type
definitions of its type section, with their readers.

Only the binary form is checked. Whether an index that a type mentions is defined, or a minimum is
below its maximum, is no question of form. -/

namespace WasmSnapshot

/-- Indices of types stay below this bound wherever a type mentions another. -/
def maxTypeIndex : Nat := 1 <<< 20

/-- What a reference may point at. -/
inductive HeapType where
  /-- A type of the module itself. -/
  | defined (index : Nat)
  /-- A predefined type, known by its byte. -/
  | abstract (shared : Bool) (code : UInt8)
  deriving DecidableEq, Repr

namespace HeapType

/-- The bytes of the predefined heap types. -/
def isAbstractCode (code : UInt8) : Bool := 0x68 ≤ code && code ≤ 0x75

/-- A predefined heap type, with the byte `65` before it if it is shared. -/
def readAbstract : Reader HeapType := do
  let code ← Reader.byte
  if code = 0x65 then
    let inner ← Reader.byte
    guard (isAbstractCode inner)
    pure (.abstract true inner)
  else
    guard (isAbstractCode code)
    pure (.abstract false code)

instance : Reader.NonGrowing readAbstract := by
  unfold readAbstract
  infer_instance

/-- A heap type. The bytes of the predefined ones are negative as a number of 33 bits, so the sign
tells them from indices. -/
def read : Reader HeapType := fun input =>
  match Leb128.signed 33 input with
  | none => none
  | some (n, rest) =>
    if n < 0 then readAbstract input
    else if n < maxTypeIndex then some (.defined n.toNat, rest)
    else none

instance : Reader.NonGrowing read where
  length_le h := by
    unfold read at h
    split at h
    · cases h
    · next hsigned =>
      split at h
      · exact Reader.NonGrowing.length_le h
      · split at h
        · cases h
          exact Reader.NonGrowing.length_le hsigned
        · cases h

end HeapType

/-- The type of a reference. -/
structure RefType where
  nullable : Bool
  heap : HeapType
  deriving DecidableEq, Repr

namespace RefType

/-- References to functions of any type. -/
def func : RefType := ⟨true, .abstract false 0x70⟩

/-- References to values of the embedder. -/
def external : RefType := ⟨true, .abstract false 0x6f⟩

/-- A reference type: a heap type, which may be null unless the byte `64` stands before it. -/
def read : Reader RefType := do
  match ← Reader.peek with
  | 0x63 => do
    let _marker ← Reader.byte
    pure ⟨true, ← HeapType.read⟩
  | 0x64 => do
    let _marker ← Reader.byte
    pure ⟨false, ← HeapType.read⟩
  | _ => pure ⟨true, ← HeapType.read⟩

instance : Reader.NonGrowing read := by
  unfold read
  have (marker : UInt8) : Reader.NonGrowing (match marker with
      | 0x63 => do
        let _marker ← Reader.byte
        pure (mk true (← HeapType.read))
      | 0x64 => do
        let _marker ← Reader.byte
        pure (mk false (← HeapType.read))
      | _ => do pure (mk true (← HeapType.read))) := by
    split <;> infer_instance
  infer_instance

end RefType

/-- The type of a value. -/
inductive ValueType where
  | i32
  | i64
  | f32
  | f64
  | v128
  | ref (type : RefType)
  deriving DecidableEq, Repr

namespace ValueType

/-- The number or vector type that a byte stands for. -/
def ofByte? : UInt8 → Option ValueType
  | 0x7f => some i32
  | 0x7e => some i64
  | 0x7d => some f32
  | 0x7c => some f64
  | 0x7b => some v128
  | _ => none

/-- A value type: the byte of a number or vector type, or else a reference type. No byte is refused
here: what begins like no number type is read as a reference type, and what begins like no reference
type as the heap type of one that may be null. A heap type may be the index of a defined type, so an
index alone is accepted as well, though the format has no such value type: `05` is a reference to
type 5. -/
def read : Reader ValueType := do
  match ofByte? (← Reader.peek) with
  | some type => do
    let _code ← Reader.byte
    pure type
  | none => ref <$> RefType.read

instance : Reader.NonGrowing read := by
  unfold read
  have (type : Option ValueType) : Reader.NonGrowing (match type with
      | some type => do
        let _code ← Reader.byte
        pure type
      | none => ref <$> RefType.read) := by
    split <;> infer_instance
  infer_instance

end ValueType

/-- The type of a function. -/
structure FuncType where
  params : List ValueType
  results : List ValueType
  deriving DecidableEq, Repr

/-- Parameters and results, at most 1000 of each. -/
def FuncType.read : Reader FuncType := do
  let params ← Reader.countedUpTo 1000 ValueType.read
  let results ← Reader.countedUpTo 1000 ValueType.read
  pure { params, results }

/-- The type of what a field of an aggregate stores. -/
inductive StorageType where
  | i8
  | i16
  | value (type : ValueType)
  deriving DecidableEq, Repr

/-- A storage type: a packed integer or a value type. -/
def StorageType.read : Reader StorageType := do
  match ← Reader.peek with
  | 0x78 => do
    let _code ← Reader.byte
    pure .i8
  | 0x77 => do
    let _code ← Reader.byte
    pure .i16
  | _ => value <$> ValueType.read

/-- A field of an aggregate. -/
structure FieldType where
  storage : StorageType
  isMutable : Bool
  deriving DecidableEq, Repr

/-- A storage type, then a byte 0 or 1 for whether the field is mutable. -/
def FieldType.read : Reader FieldType := do
  let storage ← StorageType.read
  match ← Reader.byte with
  | 0 => pure ⟨storage, false⟩
  | 1 => pure ⟨storage, true⟩
  | _ => failure

/-- What a type definition defines. -/
inductive CompositeType where
  | func (type : FuncType)
  | array (field : FieldType)
  | struct (fields : List FieldType)
  | cont (type : Nat)
  deriving DecidableEq, Repr

/-- A composite type, told by its first byte. -/
def CompositeType.read : Reader CompositeType := do
  match ← Reader.byte with
  | 0x60 => func <$> FuncType.read
  | 0x5e => array <$> FieldType.read
  | 0x5f => struct <$> Reader.countedUpTo 10000 FieldType.read
  | 0x5d => do
    let n ← Leb128.signed 33
    guard (0 ≤ n ∧ n < maxTypeIndex)
    pure (.cont n.toNat)
  | _ => failure

/-- A type definition. -/
structure SubType where
  supertypes : List Nat
  shared : Bool
  composite : CompositeType
  deriving DecidableEq, Repr

namespace SubType

/-- The index of a supertype. -/
def readSupertype : Reader Nat := do
  let n ← Leb128.size
  guard (n < maxTypeIndex)
  pure n

/-- A composite type with the mark of a shared one before it, if there is one. -/
def readShared (supertypes : List Nat) : Reader SubType := do
  if (← Reader.peek) = 0x65 then
    let _marker ← Reader.byte
    pure ⟨supertypes, true, ← CompositeType.read⟩
  else
    pure ⟨supertypes, false, ← CompositeType.read⟩

/-- A type definition, which names at most one supertype after the bytes `4f` and `50`. -/
def read : Reader SubType := do
  let first ← Reader.peek
  if first = 0x4f || first = 0x50 then
    let _marker ← Reader.byte
    readShared (← Reader.countedUpTo 1 readSupertype)
  else
    readShared []

/-- An entry of the type section: one definition, or after the byte `4e` a group of definitions
that may mention one another. -/
def readGroup : Reader (List SubType) := do
  if (← Reader.peek) = 0x4e then
    let _marker ← Reader.byte
    Reader.countedUpTo 1000000 read
  else
    pure [← read]

end SubType

/-- The bounds on the size of a table or memory. -/
structure Limits where
  min : Nat
  max : Option Nat
  deriving DecidableEq, Repr

/-- Whether the bounds are in order and lie within the given range. -/
def Limits.within (limits : Limits) (range : Nat) : Bool :=
  limits.min ≤ range && limits.max.all fun max => limits.min ≤ max && max ≤ range

/-- A minimum, and a maximum if there is one, both of `width` bits. -/
def Limits.read (width : Nat) (hasMax : Bool) : Reader Limits := do
  let min ← Leb128.unsigned width
  if hasMax then
    pure ⟨min, some (← Leb128.unsigned width)⟩
  else
    pure ⟨min, none⟩

/-- Bit `n` of a byte of flags. -/
def flag (flags : UInt8) (n : Nat) : Bool := flags.toNat.testBit n

/-- The type of a table. -/
structure TableType where
  element : RefType
  limits : Limits
  deriving DecidableEq, Repr

/-- The number of slots that no table exceeds. -/
def TableType.maxSlots : Nat := 0xffffffff

/-- The type of the elements, then flags (bit 0: there is a maximum, bit 2: limits of 64 bits),
then the limits. -/
def TableType.read : Reader TableType := do
  let element ← RefType.read
  let flags ← Reader.byte
  guard (flags ≤ 7)
  let limits ← Limits.read (if flag flags 2 then 64 else 32) (flag flags 0)
  pure { element, limits }

/-- The type of a memory. -/
structure MemoryType where
  limits : Limits
  /-- The logarithm of a page size other than the usual one. -/
  pageSize : Option Nat
  deriving DecidableEq, Repr

/-- The number of pages that no memory exceeds. -/
def MemoryType.maxPages : Nat := 65536

/-- Flags (bit 0: there is a maximum, bit 2: limits of 64 bits, bit 3: a page size), then the
limits, then the page size. -/
def MemoryType.read : Reader MemoryType := do
  let flags ← Reader.byte
  guard (flags ≤ 15)
  let limits ← Limits.read (if flag flags 2 then 64 else 32) (flag flags 0)
  if flag flags 3 then
    pure ⟨limits, some (← Leb128.size)⟩
  else
    pure ⟨limits, none⟩

/-- The type of a global. -/
structure GlobalType where
  value : ValueType
  isMutable : Bool
  deriving DecidableEq, Repr

/-- The type of the value, then flags, of which bit 0 tells whether the global is mutable. -/
def GlobalType.read : Reader GlobalType := do
  let value ← ValueType.read
  let flags ← Reader.byte
  guard (flags ≤ 3)
  pure { value, isMutable := flag flags 0 }

end WasmSnapshot
