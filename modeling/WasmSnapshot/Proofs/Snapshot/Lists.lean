import Mathlib.Algebra.GroupWithZero.Nat
import WasmSnapshot.Snapshot.Basic

/-! Lists with holes, as partial functions of an index. A list ends at the last of its values, so there
is one list for each function. -/

namespace WasmSnapshot

/-- The list has the values of a function, holes where there is none, and no hole at its end. -/
structure Snapshot.Lists {α : Type} (values : List (Option α)) (f : UInt32 → Option α) : Prop where
  getElem? (index : UInt32) : values[index.toNat]?.join = f index
  lt_length_iff (i : Nat) : i < values.length ↔ ∃ index, i ≤ index.toNat ∧ (f index).isSome = true

namespace Snapshot

variable {α : Type} {values others : List (Option α)} {f g : UInt32 → Option α}

namespace Lists

theorem nil : Lists ([] : List (Option α)) fun _ => none where
  getElem? _ := rfl
  lt_length_iff i := by simp

theorem congr (h : Lists values f) (heq : ∀ index, f index = g index) : Lists values g := by
  have hfg : f = g := funext heq
  rwa [← hfg]

theorem unique (h : Lists values f) (h' : Lists others f) : values = others := by
  refine List.ext_getElem? fun i => ?_
  have hlt : i < values.length ↔ i < others.length := by
    rw [h.lt_length_iff, h'.lt_length_iff]
  by_cases hi : i < values.length
  · obtain ⟨index, hle, -⟩ := (h.lt_length_iff i).1 hi
    have hindex : (UInt32.ofNat i).toNat = i :=
      UInt32.toNat_ofNat_of_lt' (Nat.lt_of_le_of_lt hle index.toNat_lt)
    have heq := (h.getElem? (UInt32.ofNat i)).trans (h'.getElem? (UInt32.ofNat i)).symm
    rw [hindex, List.getElem?_eq_getElem hi, List.getElem?_eq_getElem (hlt.1 hi)] at heq
    rw [List.getElem?_eq_getElem hi, List.getElem?_eq_getElem (hlt.1 hi)]
    exact congrArg some heq
  · rw [List.getElem?_eq_none (Nat.le_of_not_lt hi),
      List.getElem?_eq_none (Nat.le_of_not_lt fun hi' => hi (hlt.2 hi'))]

end Lists

/-- A list with holes has a value somewhere. -/
theorem any_isSome_iff :
    values.any Option.isSome = true ↔ ∃ (i : Nat) (v : α), values[i]? = some (some v) := by
  rw [List.any_eq_true]
  constructor
  · rintro ⟨entry, hmem, hsome⟩
    obtain ⟨v, rfl⟩ := Option.isSome_iff_exists.1 hsome
    obtain ⟨i, hi⟩ := List.mem_iff_getElem?.1 hmem
    exact ⟨i, v, hi⟩
  · rintro ⟨i, v, hi⟩
    exact ⟨some v, List.mem_of_getElem? hi, rfl⟩

theorem join_getElem?_of_any_eq_false (h : values.any Option.isSome = false) (i : Nat) :
    values[i]?.join = none := by
  cases hentry : values[i]? with
  | none => rfl
  | some entry =>
    have hnone := List.any_eq_false.1 h entry (List.mem_of_getElem? hentry)
    simpa using hnone

theorem length_setAt (values : List (Option α)) (i : Nat) (v : α) :
    (setAt values i v).length = max values.length (i + 1) := by
  simp only [setAt, List.length_set, List.length_append, List.length_replicate]
  omega

theorem join_getElem?_setAt (values : List (Option α)) (i j : Nat) (v : α) :
    (setAt values i v)[j]?.join = if j = i then some v else values[j]?.join := by
  have hlength := length_setAt values i v
  split
  · next heq =>
    subst heq
    have hlt : j < (setAt values j v).length := by omega
    rw [List.getElem?_eq_getElem hlt]
    simp [setAt]
  · next hne =>
    rw [setAt, List.getElem?_set_ne (Ne.symm hne)]
    by_cases hj : j < values.length
    · rw [List.getElem?_append_left hj]
    · rw [List.getElem?_append_right (Nat.le_of_not_lt hj), List.getElem?_replicate,
        List.getElem?_eq_none (Nat.le_of_not_lt hj)]
      split <;> rfl

/-- Putting a value in place, one step of building a list. -/
theorem Lists.setAt (h : Lists values f) (index : UInt32) (v : α) :
    Lists (setAt values index.toNat v) fun j => if j = index then some v else f j where
  getElem? j := by
    simp only [join_getElem?_setAt, h.getElem?, UInt32.toNat_inj]
  lt_length_iff i := by
    have hmax : i < max values.length (index.toNat + 1) ↔ i < values.length ∨ i ≤ index.toNat := by
      omega
    rw [length_setAt, hmax, h.lt_length_iff]
    constructor
    · rintro (⟨j, hle, hsome⟩ | hlt)
      · refine ⟨j, hle, ?_⟩
        split
        · rfl
        · exact hsome
      · exact ⟨index, hlt, by simp⟩
    · rintro ⟨j, hle, hsome⟩
      split at hsome
      · next heq => exact .inr (heq ▸ hle)
      · exact .inl ⟨j, hle, hsome⟩

end Snapshot

end WasmSnapshot
