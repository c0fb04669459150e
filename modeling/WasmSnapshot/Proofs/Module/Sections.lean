import WasmSnapshot.Proofs.Instrument.Splice
import WasmSnapshot.Proofs.Module.Entries

/-! Modules whose sections stand in the order of the format, each kind at most once, and what
becomes of their entries when others are placed behind them. -/

namespace WasmSnapshot

namespace Section

/-- The sections of known kinds stand in the order of the format, and no kind occurs twice. -/
def Ordered (sections : List Section) : Prop :=
  (sections.filterMap kind?).Pairwise fun a b => a.rank < b.rank

variable {kind : SectionKind} {sections : List Section}

theorem Ordered.rank_lt {before after : List Section} (h : Ordered (before ++ after))
    {a b : Section} {k l : SectionKind} (ha : a ∈ before) (hb : b ∈ after) (hk : a.id = k.id)
    (hl : b.id = l.id) : k.rank < l.rank := by
  rw [Ordered, List.filterMap_append, List.pairwise_append] at h
  exact h.2.2 k (List.mem_filterMap.2 ⟨a, ha, kind?_eq_some_iff.2 hk⟩) l
    (List.mem_filterMap.2 ⟨b, hb, kind?_eq_some_iff.2 hl⟩)

theorem Ordered.left {before after : List Section} (h : Ordered (before ++ after)) :
    Ordered before := by
  rw [Ordered, List.filterMap_append] at h
  exact (List.pairwise_append.1 h).1

theorem Ordered.tail {s : Section} (h : Ordered (s :: sections)) : Ordered sections := by
  rw [Ordered, List.filterMap_cons] at h
  split at h
  · exact h
  · exact (List.pairwise_cons.1 h).2

/-- In order, a kind has one section or none. -/
theorem Ordered.nil_or_singleton (h : Ordered sections) (kind : SectionKind) :
    ofKind kind sections = [] ∨ ∃ s, Section.ofKind kind sections = [s] := by
  induction sections with
  | nil => exact .inl rfl
  | cons s sections ih =>
    by_cases hid : s.id = kind.id
    · refine .inr ⟨s, ?_⟩
      rw [ofKind_cons_self hid, ofKind_eq_nil fun t ht heq => ?_]
      have happend : Ordered ([s] ++ sections) := h
      exact Nat.lt_irrefl _ (happend.rank_lt (List.mem_singleton_self s) ht hid heq)
    · rw [ofKind_cons_ne hid]
      exact ih h.tail

theorem ofKind_snoc_ne {s : Section} (h : s.id ≠ kind.id) :
    Section.ofKind kind (sections ++ [s]) = Section.ofKind kind sections := by
  rw [ofKind_append, ofKind_cons_ne h]
  exact List.append_nil _

theorem ofKind_snoc_self {s : Section} (hs : s.id = kind.id)
    (h : Section.ofKind kind sections = []) : Section.ofKind kind (sections ++ [s]) = [s] := by
  rw [ofKind_append, h, ofKind_cons_self hs]
  rfl

/-- Before a section there is none of its own kind or a later one. -/
theorem Ordered.ofKind_eq_nil {s : Section} {here : SectionKind}
    (h : Ordered (sections ++ [s])) (hs : s.id = here.id) (hrank : here.rank ≤ kind.rank) :
    Section.ofKind kind sections = [] := by
  refine Section.ofKind_eq_nil fun t ht hid => ?_
  have := h.rank_lt ht (List.mem_singleton_self s) hid hs
  omega

end Section

namespace Module

variable {α β : Type} {kind : SectionKind} {item : Reader β} {sections spliced : List Section}

theorem entries?_of_nil (h : Section.ofKind kind sections = []) :
    entries? sections kind item = some [] := by
  have hfilter : sections.filter (·.id = kind.id) = [] := h
  rw [entries?, hfilter]
  rfl

theorem entries?_of_singleton {s : Section} (h : Section.ofKind kind sections = [s]) :
    entries? sections kind item = (Reader.counted item).whole s.contents := by
  have hfilter : sections.filter (·.id = kind.id) = [s] := h
  rw [entries?, hfilter]
  cases hs : (Reader.counted item).whole s.contents <;> simp [hs]

theorem entries?_congr (h : Section.ofKind kind spliced = Section.ofKind kind sections) :
    entries? spliced kind item = entries? sections kind item := by
  have hfilter : spliced.filter (·.id = kind.id) = sections.filter (·.id = kind.id) := h
  rw [entries?, entries?, hfilter]

/-- The entries for a kind, if there are any. -/
def someEntries (entries : Entries) : Option Entries :=
  if entries.isEmpty then none else some entries

theorem someEntries_ofList {encode : α → Bytes} {values : List α} (h : values.length < 2 ^ 32) :
    someEntries (.ofList encode values) =
      if values = [] then none else some (.ofList encode values) := by
  have hiff : (Entries.ofList encode values).isEmpty = true ↔ values = [] := by
    rw [Entries.isEmpty, decide_eq_true_iff, ← UInt32.toNat_inj, Entries.count_ofList h]
    simp
  by_cases hvalues : values = []
  · rw [someEntries, if_pos (hiff.2 hvalues), if_pos hvalues]
  · rw [someEntries, if_neg fun he => hvalues (hiff.1 he), if_neg hvalues]

/-- Sections in order give back their old entries and after them the ones that were placed. -/
theorem entries?_of_placed [Reader.Extensible item] {encode : α → Bytes} {decode : α → β}
    {values : List α} {old : List β} (hordered : Section.Ordered sections)
    (hlength : values.length < 2 ^ 32) (h : ∀ v ∈ values, Reader.Reads item (encode v) (decode v))
    (hold : entries? sections kind item = some old)
    (hplaced : Entries.placed kind (someEntries (.ofList encode values))
      (Section.ofKind kind sections) = .ok (Section.ofKind kind spliced)) :
    entries? spliced kind item = some (old ++ values.map decode) := by
  rw [someEntries_ofList hlength] at hplaced
  by_cases hvalues : values = []
  · rw [if_pos hvalues] at hplaced
    rw [entries?_congr (Except.ok.inj hplaced).symm, hold, hvalues, List.map_nil, List.append_nil]
  · rw [if_neg hvalues] at hplaced
    rcases hordered.nil_or_singleton kind with hnone | ⟨s, hs⟩
    · rw [hnone] at hplaced
      rw [entries?_of_nil hnone] at hold
      cases hold
      rw [entries?_of_singleton (Except.ok.inj hplaced).symm, Entries.whole_contents hlength h]
      rfl
    · rw [hs] at hplaced
      rw [entries?_of_singleton hs] at hold
      obtain ⟨contents, hcontents, hplaced⟩ := Except.bind_eq_ok hplaced
      rw [entries?_of_singleton (Except.ok.inj hplaced).symm,
        Entries.whole_appendTo hlength h hold hcontents]

/-- As `entries?_of_placed`, of entries that are read back if at all. -/
theorem eq_of_entries?_placed [Reader.Extensible item] {encode : α → Bytes} {decode : α → β}
    {values : List α} {old read : List β} (hordered : Section.Ordered sections)
    (hlength : values.length < 2 ^ 32)
    (h : ∀ v ∈ values, Reader.ReadsAtMost item (encode v) (decode v))
    (hold : entries? sections kind item = some old)
    (hplaced : Entries.placed kind (someEntries (.ofList encode values))
      (Section.ofKind kind sections) = .ok (Section.ofKind kind spliced))
    (hread : entries? spliced kind item = some read) : read = old ++ values.map decode := by
  rw [someEntries_ofList hlength] at hplaced
  by_cases hvalues : values = []
  · rw [if_pos hvalues] at hplaced
    rw [entries?_congr (Except.ok.inj hplaced).symm, hold] at hread
    cases hread
    rw [hvalues, List.map_nil, List.append_nil]
  · rw [if_neg hvalues] at hplaced
    rcases hordered.nil_or_singleton kind with hnone | ⟨s, hs⟩
    · rw [hnone] at hplaced
      rw [entries?_of_nil hnone] at hold
      cases hold
      rw [entries?_of_singleton (Except.ok.inj hplaced).symm] at hread
      exact Entries.eq_of_whole_contents hlength h hread
    · rw [hs] at hplaced
      rw [entries?_of_singleton hs] at hold
      obtain ⟨contents, hcontents, hplaced⟩ := Except.bind_eq_ok hplaced
      rw [entries?_of_singleton (Except.ok.inj hplaced).symm] at hread
      exact Entries.eq_of_whole_appendTo hlength h hold hcontents hread

end Module

end WasmSnapshot
