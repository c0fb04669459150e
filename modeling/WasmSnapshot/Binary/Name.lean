import WasmSnapshot.Binary.Leb128

/-! Names in the binary format: the length in bytes, then that many bytes of UTF-8. -/

namespace WasmSnapshot.Name

/-- The largest length of a name that is read, in bytes. -/
def maxLength : Nat := 100000

/-- A name of at most `maxLength` bytes. -/
def read : Reader String := do
  let length ← Leb128.size
  guard (length ≤ maxLength)
  let bytes ← Reader.take length
  match String.fromUTF8? ⟨bytes.toArray⟩ with
  | some name => pure name
  | none => failure

/-- The written form of a name, whatever its length. -/
def encode (name : String) : Bytes :=
  Leb128.encode name.utf8ByteSize ++ name.toUTF8.data.toList

end WasmSnapshot.Name
