import WasmSnapshot.Binary.Reader

/-! LEB128, the variable-length numbers of the binary format: seven bits to a byte, the lowest
first, with the top bit set on every byte but the last.

The readers carry the number of bits that are still free. A byte may continue only while more than
seven are, and the last byte must fit, so a number of `width` bits takes at most `⌈width / 7⌉`
bytes, and padded forms within that length are read like the shortest one. The writers produce the
shortest form. -/

namespace WasmSnapshot.Leb128

/-- An unsigned number of at most `width` bits. -/
def unsigned (width : Nat) : Reader Nat
  | [] => none
  | b :: rest =>
    if b.toNat < 128 then
      if b.toNat < 1 <<< width then some (b.toNat, rest) else none
    else if width ≤ 7 then none
    else
      match unsigned (width - 7) rest with
      | none => none
      | some (high, after) => some (b.toNat - 128 + 128 * high, after)

theorem length_lt_of_unsigned {width : Nat} {input rest : Bytes} {n : Nat}
    (h : unsigned width input = some (n, rest)) : rest.length < input.length := by
  induction input generalizing width n with
  | nil => cases h
  | cons b input ih =>
    unfold unsigned at h
    split at h
    · split at h
      · cases h
        exact Nat.lt_succ_self _
      · cases h
    · split at h
      · cases h
      · split at h
        · cases h
        · next hrest =>
          cases h
          exact Nat.lt_succ_of_lt (ih hrest)

instance (width : Nat) : Reader.Consuming (unsigned width) := ⟨length_lt_of_unsigned⟩

/-- The value of the seven bits of a last byte, of which the top one is the sign. -/
def signExtended (b : UInt8) : Int :=
  if b.toNat < 64 then b.toNat else (b.toNat : Int) - 128

/-- Numbers of `width` bits in two's complement are below this bound, and at least its opposite. -/
def signBound (width : Nat) : Int := (1 <<< (width - 1) : Nat)

/-- A number in two's complement of at most `width` bits. -/
def signed (width : Nat) : Reader Int
  | [] => none
  | b :: rest =>
    if b.toNat < 128 then
      if -signBound width ≤ signExtended b ∧ signExtended b < signBound width then
        some (signExtended b, rest)
      else none
    else if width ≤ 7 then none
    else
      match signed (width - 7) rest with
      | none => none
      | some (high, after) => some ((b.toNat : Int) - 128 + 128 * high, after)

theorem length_lt_of_signed {width : Nat} {input rest : Bytes} {n : Int}
    (h : signed width input = some (n, rest)) : rest.length < input.length := by
  induction input generalizing width n with
  | nil => cases h
  | cons b input ih =>
    unfold signed at h
    split at h
    · split at h
      · cases h
        exact Nat.lt_succ_self _
      · cases h
    · split at h
      · cases h
      · split at h
        · cases h
        · next hrest =>
          cases h
          exact Nat.lt_succ_of_lt (ih hrest)

instance (width : Nat) : Reader.Consuming (signed width) := ⟨length_lt_of_signed⟩

/-- The shortest form of a natural number. -/
def encode (n : Nat) : Bytes :=
  if n < 128 then [UInt8.ofNat n] else UInt8.ofNat (n % 128 + 128) :: encode (n / 128)

/-- The shortest form of an integer. -/
def encodeSigned (n : Int) : Bytes :=
  if _ : -64 ≤ n ∧ n < 64 then [UInt8.ofNat (n % 128).toNat]
  else UInt8.ofNat (n % 128 + 128).toNat :: encodeSigned (n / 128)
termination_by n.natAbs
decreasing_by omega

/-- A 32-bit number: a count, a length or a limit. -/
def size : Reader Nat := unsigned 32

instance : Reader.Consuming size := inferInstanceAs (Reader.Consuming (unsigned 32))

/-- A 32-bit index into one of the index spaces of a module. -/
def index : Reader UInt32 := UInt32.ofNat <$> size

instance : Reader.Consuming index :=
  inferInstanceAs (Reader.Consuming (UInt32.ofNat <$> size))

end WasmSnapshot.Leb128

namespace WasmSnapshot.Reader

variable {α : Type}

/-- A list that opens with the number of its entries, which is at most `limit`. -/
def countedUpTo (limit : Nat) (item : Reader α) : Reader (List α) := do
  let count ← Leb128.size
  guard (count ≤ limit)
  times item count

instance (limit : Nat) (item : Reader α) [NonGrowing item] : Consuming (countedUpTo limit item) := by
  unfold countedUpTo
  infer_instance

/-- A list that opens with the number of its entries. -/
def counted (item : Reader α) : Reader (List α) := do
  times item (← Leb128.size)

/-- Bytes that open with their number and that `item` reads to the end. -/
def sized (item : Reader α) : Reader α := do
  let contents ← take (← Leb128.size)
  match item.whole contents with
  | some value => pure value
  | none => failure

end WasmSnapshot.Reader
