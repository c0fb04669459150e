import WasmSnapshot.Instrument.Error

/-! Entries that are added to a section, and the two ways in which they reach it: as a section of
their own, or after the entries that a section has already. -/

namespace WasmSnapshot

/-- Entries in their written form. Their number is kept in 32 bits, as in the file. -/
structure Entries where
  count : UInt32
  bytes : Bytes
  deriving DecidableEq, Repr

namespace Entries

/-- The entries that `encode` makes of a list, one of each value. -/
def ofList {α : Type} (encode : α → Bytes) (values : List α) : Entries where
  count := UInt32.ofNat values.length
  bytes := values.flatMap encode

/-- Whether there is nothing to add. -/
def isEmpty (entries : Entries) : Bool := entries.count = 0

/-- The contents of a section with these entries alone. -/
def contents (entries : Entries) : Bytes :=
  Leb128.encode entries.count.toNat ++ entries.bytes

/-- The contents of a section that has these entries after its old ones. The old entries stay as
they are; only the count before them is written anew. -/
def appendTo (entries : Entries) (kind : SectionKind) (old : Bytes) :
    Except InstrumentError Bytes :=
  match Leb128.unsigned 64 old with
  | none => .error .malformedCount
  | some (count, oldEntries) =>
    if count + entries.count.toNat < UInt32.size then
      .ok (Leb128.encode (count + entries.count.toNat) ++ oldEntries ++ entries.bytes)
    else .error (.tooManyEntries kind)

end Entries

end WasmSnapshot
