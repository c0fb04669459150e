/-! Byte strings and the readers that take values off their front.

A reader is a total function from the bytes at hand to the value read and the bytes after it. The
combinators below (a byte, a run of bytes, repetition, reading up to a closing byte, reading a
whole string) are what every binary format of the library is built from.

No reader of the library leaves more bytes than it found (`NonGrowing`), and those that are
repeated until something stops them leave fewer (`Consuming`), which is why the repetition ends. -/

namespace WasmSnapshot

/-- A string of bytes. -/
abbrev Bytes := List UInt8

/-- The number whose little-endian digits to base 256 are `bytes`. -/
def Bytes.littleEndian : Bytes → Nat
  | [] => 0
  | b :: rest => b.toNat + 256 * Bytes.littleEndian rest

/-- The lowest `n` little-endian digits of `value` to base 256. -/
def Bytes.ofLittleEndian : Nat → Nat → Bytes
  | 0, _ => []
  | n + 1, value => UInt8.ofNat value :: Bytes.ofLittleEndian n (value / 256)

/-- A reader takes bytes off the front of its input, and fails where they have the wrong form. -/
abbrev Reader := StateT Bytes Option

namespace Reader

variable {α : Type}

/-- The next byte. -/
def byte : Reader UInt8
  | [] => none
  | b :: rest => some (b, rest)

/-- The next byte, which stays where it is. -/
def peek : Reader UInt8
  | [] => none
  | b :: rest => some (b, b :: rest)

/-- The byte `b` and no other. -/
def expect (b : UInt8) : Reader Unit := do
  guard ((← byte) = b)

/-- The next `n` bytes. -/
def take (n : Nat) : Reader Bytes := fun input =>
  if n ≤ input.length then some (input.take n, input.drop n) else none

/-- All bytes that are left. -/
def rest : Reader Bytes := fun input => some (input, [])

/-- The bytes that `item` takes, whatever they mean. -/
def taken (item : Reader α) : Reader Bytes := fun input =>
  match item input with
  | some (_, rest) => some (input.take (input.length - rest.length), rest)
  | none => none

/-- `item`, `n` times over. -/
def times (item : Reader α) : Nat → Reader (List α)
  | 0 => pure []
  | n + 1 => do
    let first ← item
    let rest ← times item n
    pure (first :: rest)

/-- The value of `item` on an input that it reads to the end. -/
def whole (item : Reader α) (input : Bytes) : Option α :=
  match item input with
  | some (value, []) => some value
  | _ => none

/-- The reader leaves at most as many bytes as it finds. -/
class NonGrowing (r : Reader α) : Prop where
  length_le {input rest : Bytes} {value : α} :
    r input = some (value, rest) → rest.length ≤ input.length

/-- The reader leaves fewer bytes than it finds. -/
class Consuming (r : Reader α) : Prop where
  length_lt {input rest : Bytes} {value : α} :
    r input = some (value, rest) → rest.length < input.length

instance [Consuming r] : NonGrowing r where
  length_le h := Nat.le_of_lt (Consuming.length_lt h)

section Instances

variable {β : Type} {r : Reader α} {f : α → Reader β}

/-- A reader followed by another one that depends on its value. -/
theorem bind_eq_some {input rest : Bytes} {value : β} (h : (r >>= f) input = some (value, rest)) :
    ∃ first middle, r input = some (first, middle) ∧ f first middle = some (value, rest) := by
  cases hr : r input with
  | none => simp [bind, StateT.bind, hr] at h
  | some read => exact ⟨read.1, read.2, rfl, by simpa [bind, StateT.bind, hr] using h⟩

instance (value : α) : NonGrowing (pure value : Reader α) where
  length_le h := by cases h; exact Nat.le_refl _

instance : NonGrowing (failure : Reader α) where
  length_le h := by cases h

instance (p : Prop) [Decidable p] : NonGrowing (guard p : Reader Unit) where
  length_le h := by
    unfold guard at h
    split at h
    · cases h
      exact Nat.le_refl _
    · cases h

instance (p : Prop) [Decidable p] (s : Reader α) [NonGrowing r] [NonGrowing s] :
    NonGrowing (if p then r else s) := by
  split <;> infer_instance

instance [NonGrowing r] [∀ a, NonGrowing (f a)] : NonGrowing (r >>= f) where
  length_le h := by
    obtain ⟨first, middle, hr, hf⟩ := bind_eq_some h
    exact Nat.le_trans (NonGrowing.length_le hf) (NonGrowing.length_le hr)

instance [Consuming r] [∀ a, NonGrowing (f a)] : Consuming (r >>= f) where
  length_lt h := by
    obtain ⟨first, middle, hr, hf⟩ := bind_eq_some h
    exact Nat.lt_of_le_of_lt (NonGrowing.length_le hf) (Consuming.length_lt hr)

instance (g : α → β) [NonGrowing r] : NonGrowing (g <$> r) :=
  inferInstanceAs (NonGrowing (r >>= fun a => pure (g a)))

instance (g : α → β) [Consuming r] : Consuming (g <$> r) :=
  inferInstanceAs (Consuming (r >>= fun a => pure (g a)))

instance : NonGrowing peek where
  length_le {input _ _} h := by
    cases input with
    | nil => cases h
    | cons b rest => cases h; exact Nat.le_refl _

instance : Consuming byte where
  length_lt {input _ _} h := by
    cases input with
    | nil => cases h
    | cons b rest => cases h; exact Nat.lt_succ_self _

instance (b : UInt8) : Consuming (expect b) :=
  inferInstanceAs (Consuming (byte >>= fun first => guard (first = b)))

instance (n : Nat) : NonGrowing (take n) where
  length_le h := by
    unfold take at h
    split at h
    · cases h
      simp
    · cases h

instance [NonGrowing r] (n : Nat) : NonGrowing (times r n) := by
  induction n with
  | zero => exact inferInstanceAs (NonGrowing (pure [] : Reader (List α)))
  | succ n ih =>
    unfold times
    infer_instance

end Instances

/-- `item` as often as the input has room for, to its very end. -/
def toEnd (item : Reader α) [Consuming item] : Bytes → Option (List α)
  | [] => some []
  | b :: input =>
    match _h : item (b :: input) with
    | none => none
    | some (first, rest) => (toEnd item rest).map (first :: ·)
termination_by input => input.length
decreasing_by exact Consuming.length_lt _h

/-- `item` as often as it comes before the byte `stop`, which is read as well. -/
def upTo (stop : UInt8) (item : Reader α) [Consuming item] : Bytes → Option (List α × Bytes)
  | [] => none
  | b :: input =>
    if b = stop then some ([], input)
    else
      match _h : item (b :: input) with
      | none => none
      | some (first, rest) =>
        (upTo stop item rest).map fun (items, after) => (first :: items, after)
termination_by input => input.length
decreasing_by exact Consuming.length_lt _h

end Reader

end WasmSnapshot
