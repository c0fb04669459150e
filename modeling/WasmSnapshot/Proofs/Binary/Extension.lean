import Mathlib.Algebra.GroupWithZero.Nat
import Mathlib.Data.List.Basic
import WasmSnapshot.Module.Entries

/-! Readers on longer inputs. A reader that succeeds takes the same bytes off the front whatever
stands after them (`Extensible`), so entries that are put behind others in a section leave the
reading of the others alone. -/

namespace WasmSnapshot

namespace Reader

variable {α β : Type}

/-- What the reader takes off its input does not depend on the bytes after it. -/
class Extensible (r : Reader α) : Prop where
  append {input rest : Bytes} {value : α} (h : r input = some (value, rest)) (more : Bytes) :
    r (input ++ more) = some (value, rest ++ more)

theorem bind_of_eq_some {r : Reader α} {f : α → Reader β} {input middle : Bytes} {first : α}
    (h : r input = some (first, middle)) : (r >>= f) input = f first middle := by
  simp [bind, StateT.bind, h]

theorem map_of_eq_some {r : Reader α} {g : α → β} {input rest : Bytes} {value : α}
    (h : r input = some (value, rest)) : (g <$> r) input = some (g value, rest) := by
  simp [Functor.map, StateT.map, h, bind, pure]

theorem byte_cons (b : UInt8) (rest : Bytes) : byte (b :: rest) = some (b, rest) := rfl

theorem byte_eq_some {input rest : Bytes} {b : UInt8} (h : byte input = some (b, rest)) :
    input = b :: rest := by
  cases input with
  | nil => cases h
  | cons first others => cases h; rfl

theorem guard_of {p : Prop} [Decidable p] (hp : p) (input : Bytes) :
    (guard p : Reader Unit) input = some ((), input) := by
  rw [guard, if_pos hp]
  rfl

theorem guard_eq_some {p : Prop} [Decidable p] {input rest : Bytes} {value : Unit}
    (h : (guard p : Reader Unit) input = some (value, rest)) : p ∧ rest = input := by
  unfold guard at h
  split at h
  · next hp => cases h; exact ⟨hp, rfl⟩
  · cases h

theorem take_append (bytes more : Bytes) :
    take bytes.length (bytes ++ more) = some (bytes, more) := by
  simp [take]

theorem take_eq_some {n : Nat} {input rest bytes : Bytes} (h : take n input = some (bytes, rest)) :
    bytes.length = n ∧ input = bytes ++ rest := by
  unfold take at h
  split at h
  · next hn => cases h; exact ⟨List.length_take_of_le hn, (List.take_append_drop n input).symm⟩
  · cases h

instance (value : α) : Extensible (pure value : Reader α) where
  append h more := by cases h; rfl

instance : Extensible (failure : Reader α) where
  append h := by cases h

instance {r s : Reader α} (p : Prop) [Decidable p] [Extensible r] [Extensible s] :
    Extensible (if p then r else s) := by
  split <;> infer_instance

instance (p : Prop) [Decidable p] : Extensible (guard p : Reader Unit) := by
  unfold guard
  infer_instance

instance {r : Reader α} {f : α → Reader β} [Extensible r] [∀ a, Extensible (f a)] :
    Extensible (r >>= f) where
  append h more := by
    obtain ⟨first, middle, hr, hf⟩ := bind_eq_some h
    rw [bind_of_eq_some (Extensible.append hr more)]
    exact Extensible.append hf more

instance {r : Reader α} (g : α → β) [Extensible r] : Extensible (g <$> r) :=
  inferInstanceAs (Extensible (r >>= fun a => pure (g a)))

instance : Extensible byte where
  append {input _ _} h more := by
    cases input with
    | nil => cases h
    | cons b rest => cases h; rfl

instance : Extensible peek where
  append {input _ _} h more := by
    cases input with
    | nil => cases h
    | cons b rest => cases h; rfl

instance (b : UInt8) : Extensible (expect b) :=
  inferInstanceAs (Extensible (byte >>= fun first => guard (first = b)))

instance (n : Nat) : Extensible (take n) where
  append h more := by
    obtain ⟨rfl, rfl⟩ := take_eq_some h
    rw [List.append_assoc, take_append]

instance (item : Reader α) [Extensible item] (n : Nat) : Extensible (times item n) := by
  induction n with
  | zero => exact inferInstanceAs (Extensible (pure []))
  | succ n ih => exact inferInstanceAs (Extensible (item >>= fun first =>
      times item n >>= fun rest => pure (first :: rest)))

instance (width : Nat) : Extensible (Leb128.unsigned width) where
  append {input rest value} h more := by
    induction input generalizing width value with
    | nil => cases h
    | cons b input ih =>
      unfold Leb128.unsigned at h
      rw [List.cons_append, Leb128.unsigned]
      split at h
      · next hb =>
        rw [if_pos hb]
        split at h
        · next hw =>
          cases h
          rw [if_pos hw]
        · cases h
      · next hb =>
        rw [if_neg hb]
        split at h
        · cases h
        · next hw =>
          rw [if_neg hw]
          split at h
          · cases h
          · next hrest =>
            cases h
            rw [ih (width - 7) hrest]

instance (width : Nat) : Extensible (Leb128.signed width) where
  append {input rest value} h more := by
    induction input generalizing width value with
    | nil => cases h
    | cons b input ih =>
      unfold Leb128.signed at h
      rw [List.cons_append, Leb128.signed]
      split at h
      · next hb =>
        rw [if_pos hb]
        split at h
        · next hw =>
          cases h
          rw [if_pos hw]
        · cases h
      · next hb =>
        rw [if_neg hb]
        split at h
        · cases h
        · next hw =>
          rw [if_neg hw]
          split at h
          · cases h
          · next hrest =>
            cases h
            rw [ih (width - 7) hrest]

instance : Extensible Leb128.size := inferInstanceAs (Extensible (Leb128.unsigned 32))

instance : Extensible Leb128.index :=
  inferInstanceAs (Extensible (UInt32.ofNat <$> Leb128.size))

instance (limit : Nat) (item : Reader α) [Extensible item] :
    Extensible (countedUpTo limit item) := by
  unfold countedUpTo
  infer_instance

instance (item : Reader α) [Extensible item] : Extensible (counted item) := by
  unfold counted
  infer_instance

/-- Bytes of a stated size, whatever `item` makes of them. -/
instance (item : Reader α) : Extensible (sized item) := by
  unfold sized
  have (contents : Bytes) : Extensible (match item.whole contents with
      | some value => (pure value : Reader α)
      | none => failure) := by
    split <;> infer_instance
  infer_instance

end Reader

open Reader

instance : Extensible HeapType.readAbstract := by
  unfold HeapType.readAbstract
  infer_instance

instance : Extensible HeapType.read where
  append {input rest value} h more := by
    unfold HeapType.read at h ⊢
    split at h
    · cases h
    · next hsigned =>
      rw [Extensible.append hsigned more]
      simp only
      split at h
      · next hn =>
        rw [if_pos hn]
        exact Extensible.append h more
      · next hn =>
        rw [if_neg hn]
        split at h
        · next hmax =>
          cases h
          rw [if_pos hmax]
        · cases h

instance : Extensible RefType.read := by
  unfold RefType.read
  have (code : UInt8) : Extensible (match code with
      | 0x63 => do
        let _marker ← Reader.byte
        pure (RefType.mk true (← HeapType.read))
      | 0x64 => do
        let _marker ← Reader.byte
        pure ⟨false, ← HeapType.read⟩
      | _ => do pure ⟨true, ← HeapType.read⟩) := by
    split <;> infer_instance
  infer_instance

instance : Extensible ValueType.read := by
  unfold ValueType.read
  have (type : Option ValueType) : Extensible (match type with
      | some type => do
        let _code ← Reader.byte
        pure type
      | none => ValueType.ref <$> RefType.read) := by
    split <;> infer_instance
  infer_instance

instance : Extensible FuncType.read := by
  unfold FuncType.read
  infer_instance

instance : Extensible StorageType.read := by
  unfold StorageType.read
  have (code : UInt8) : Extensible (match code with
      | 0x78 => do
        let _code ← Reader.byte
        pure .i8
      | 0x77 => do
        let _code ← Reader.byte
        pure .i16
      | _ => StorageType.value <$> ValueType.read) := by
    split <;> infer_instance
  infer_instance

instance : Extensible FieldType.read := by
  unfold FieldType.read
  have (storage : StorageType) (flags : UInt8) : Extensible (match flags with
      | 0 => pure (FieldType.mk storage false)
      | 1 => pure (FieldType.mk storage true)
      | _ => failure) := by
    split <;> infer_instance
  infer_instance

instance : Extensible CompositeType.read := by
  unfold CompositeType.read
  have (code : UInt8) : Extensible (match code with
      | 0x60 => CompositeType.func <$> FuncType.read
      | 0x5e => CompositeType.array <$> FieldType.read
      | 0x5f => CompositeType.struct <$> Reader.countedUpTo 10000 FieldType.read
      | 0x5d => do
        let n ← Leb128.signed 33
        guard (0 ≤ n ∧ n < maxTypeIndex)
        pure (.cont n.toNat)
      | _ => failure) := by
    split <;> infer_instance
  infer_instance

instance : Extensible SubType.readSupertype := by
  unfold SubType.readSupertype
  infer_instance

instance (supertypes : List Nat) : Extensible (SubType.readShared supertypes) := by
  unfold SubType.readShared
  infer_instance

instance : Extensible SubType.read := by
  unfold SubType.read
  infer_instance

instance : Extensible SubType.readGroup := by
  unfold SubType.readGroup
  infer_instance

instance : Extensible Name.read := by
  unfold Name.read
  have (name : Option String) : Extensible (match name with
      | some name => (pure name : Reader String)
      | none => failure) := by
    split <;> infer_instance
  infer_instance

instance : Extensible ExternKind.read := by
  unfold ExternKind.read
  have (code : UInt8) : Extensible (match code with
      | 0 => (pure .func : Reader ExternKind)
      | 1 => pure .table
      | 2 => pure .memory
      | 3 => pure .global
      | 4 => pure .tag
      | _ => failure) := by
    split <;> infer_instance
  infer_instance

instance : Extensible Export.read := by
  unfold Export.read
  infer_instance

instance : Extensible Instr.readBody := inferInstanceAs (Extensible (Reader.sized _))

end WasmSnapshot
