import Mathlib.Algebra.GroupWithZero.Nat
import WasmSnapshot.Accessor.IndexMap

/-! Looking up what was inserted into a map. The entries of a map stand in ascending order, so there
is one at most for each index. -/

namespace WasmSnapshot

theorem List.lookup_eq_some_of_unique {κ α : Type} [BEq κ] [LawfulBEq κ] {entries : List (κ × α)}
    {key : κ} {value : α} (hmem : (key, value) ∈ entries)
    (hunique : ∀ other, (key, other) ∈ entries → other = value) :
    entries.lookup key = some value := by
  induction entries with
  | nil => cases hmem
  | cons entry entries ih =>
    obtain ⟨first, other⟩ := entry
    by_cases heq : key = first
    · subst heq
      rw [List.lookup_cons_self, hunique other List.mem_cons_self]
    · rw [List.lookup_cons, beq_false_of_ne heq]
      refine ih ?_ fun w hw => hunique w (List.mem_cons_of_mem _ hw)
      rcases List.mem_cons.1 hmem with hfirst | hmem
      · exact absurd (Prod.mk.inj hfirst).1 heq
      · exact hmem

namespace IndexMap

variable {α : Type} {map : IndexMap α} {i j : UInt32} {v w : α}

theorem mem_insert : (j, w) ∈ (map.insert i v).entries ↔
    j = i ∧ w = v ∨ j ≠ i ∧ (j, w) ∈ map.entries := by
  have hne : j ≠ i ↔ j < i ∨ i < j := by
    constructor
    · exact UInt32.lt_or_lt_of_ne
    · rintro (h | h) rfl <;> exact UInt32.lt_irrefl _ h
  simp only [insert, List.mem_append, List.mem_cons, List.mem_filter, Prod.mk.injEq,
    decide_eq_true_eq, hne]
  constructor
  · rintro (⟨hmem, hlt⟩ | heq | ⟨hmem, hlt⟩)
    · exact .inr ⟨.inl hlt, hmem⟩
    · exact .inl heq
    · exact .inr ⟨.inr hlt, hmem⟩
  · rintro (heq | ⟨hlt | hlt, hmem⟩)
    · exact .inr (.inl heq)
    · exact .inl ⟨hmem, hlt⟩
    · exact .inr (.inr ⟨hmem, hlt⟩)

/-- An index has one value at most. -/
theorem value_unique (hv : (i, v) ∈ map.entries) (hw : (i, w) ∈ map.entries) : v = w := by
  have hdistinct : map.entries.Pairwise fun a b => a.1 = b.1 → a.2 = b.2 :=
    map.ascending.imp fun hlt heq => absurd hlt (by rw [heq]; exact UInt32.lt_irrefl _)
  have hflipped : map.entries.Pairwise (flip fun a b => a.1 = b.1 → a.2 = b.2) :=
    hdistinct.imp fun h heq => (h heq.symm).symm
  exact hdistinct.forall_of_forall_of_flip (fun _ _ _ => rfl) hflipped hv hw rfl

theorem get?_eq_some_iff : map.get? i = some v ↔ (i, v) ∈ map.entries := by
  constructor
  · intro h
    obtain ⟨before, after, heq, -⟩ := List.lookup_eq_some_iff.1 h
    rw [heq]
    exact List.mem_append_right _ List.mem_cons_self
  · intro h
    exact List.lookup_eq_some_of_unique h fun w hw => value_unique hw h

theorem get?_insert : (map.insert i v).get? j = if j = i then some v else map.get? j := by
  refine Option.ext fun w => ?_
  rw [get?_eq_some_iff, mem_insert]
  split
  · next heq => simp [heq, eq_comm]
  · next hne => simp [hne, get?_eq_some_iff]

end IndexMap

end WasmSnapshot
