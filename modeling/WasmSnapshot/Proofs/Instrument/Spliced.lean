import WasmSnapshot.Proofs.Instrument.Splice

/-! Splicing as a relation between the sections before and the sections after. Each step makes a
section of entries that wait, or puts entries at the end of a section, or keeps a section as it is;
entries that were used wait no longer. What splicing does to a list of sections is proved by
induction on these steps, whatever the order of the sections. -/

namespace WasmSnapshot

namespace Section

/-- The place of the first section of a kind. -/
def first? (kind : SectionKind) (sections : List Section) : Option Nat :=
  sections.findIdx? (·.id = kind.id)

/-- The sections whose ids are among `ids`. -/
def kept (ids : List UInt8) (sections : List Section) : List Section :=
  sections.filter fun s => ids.contains s.id

/-- The sections whose ids are not among `ids`. -/
def created (ids : List UInt8) (sections : List Section) : List Section :=
  sections.filter fun s => !ids.contains s.id

variable {kind : SectionKind} {ids : List UInt8} {s : Section} {sections : List Section}

theorem first?_cons_self (h : s.id = kind.id) : first? kind (s :: sections) = some 0 := by
  simp [first?, List.findIdx?_cons, h]

theorem first?_cons_ne (h : s.id ≠ kind.id) :
    first? kind (s :: sections) = (first? kind sections).map (· + 1) := by
  simp [first?, List.findIdx?_cons, h]

theorem mem_of_first? {i : Nat} (h : first? kind sections = some i) :
    ∃ s ∈ sections, s.id = kind.id := by
  obtain ⟨hlt, hid, -⟩ := List.findIdx?_eq_some_iff_getElem.1 h
  exact ⟨sections[i], List.getElem_mem hlt, by simpa using hid⟩

theorem id_of_first? {i : Nat} (h : first? kind sections = some i) (hs : sections[i]? = some s) :
    s.id = kind.id := by
  obtain ⟨hlt, hid, -⟩ := List.findIdx?_eq_some_iff_getElem.1 h
  rw [List.getElem?_eq_getElem hlt, Option.some.injEq] at hs
  rw [← hs]
  simpa using hid

theorem kept_append (ids : List UInt8) (before after : List Section) :
    kept ids (before ++ after) = kept ids before ++ kept ids after := List.filter_append ..

theorem kept_cons_mem (h : s.id ∈ ids) : kept ids (s :: sections) = s :: kept ids sections :=
  List.filter_cons_of_pos (List.contains_iff_mem.2 h)

theorem kept_cons_not_mem (h : s.id ∉ ids) : kept ids (s :: sections) = kept ids sections :=
  List.filter_cons_of_neg fun hmem => h (List.contains_iff_mem.1 hmem)

theorem created_cons_mem (h : s.id ∈ ids) :
    created ids (s :: sections) = created ids sections :=
  List.filter_cons_of_neg (by simpa using h)

theorem created_cons_not_mem (h : s.id ∉ ids) :
    created ids (s :: sections) = s :: created ids sections :=
  List.filter_cons_of_pos (by simpa using h)

end Section

namespace Pending

variable {kind target : SectionKind} {pending : Pending} {ids : List UInt8}
  {sections spliced : List Section}

/-- The entries that wait for other kinds. -/
def without (pending : Pending) (kind : SectionKind) : Pending :=
  pending.filter fun entry => entry.1 != kind

theorem lookup_without_self (kind : SectionKind) (pending : Pending) :
    (pending.without kind).lookup kind = none := by
  rw [without, lookup_filter (· != kind)]
  simp

theorem lookup_without_ne (h : target ≠ kind) (pending : Pending) :
    (pending.without kind).lookup target = pending.lookup target := by
  rw [without, lookup_filter (· != kind), if_pos (by simpa using h)]

theorem mem_targets_without : target ∈ (pending.without kind).targets ↔
    target ∈ pending.targets ∧ target ≠ kind := by
  simp only [targets, without, List.mem_map, List.mem_filter]
  constructor
  · rintro ⟨entry, ⟨hentry, hne⟩, rfl⟩
    exact ⟨⟨entry, hentry, rfl⟩, by simpa using hne⟩
  · rintro ⟨⟨entry, hentry, rfl⟩, hne⟩
    exact ⟨entry, ⟨hentry, by simpa using hne⟩, rfl⟩

theorem without_of_not_mem (h : kind ∉ pending.targets) : pending.without kind = pending := by
  rw [without, List.filter_eq_self]
  intro entry hentry
  rw [bne_iff_ne]
  rintro rfl
  exact h (List.mem_map_of_mem hentry)

theorem mem_targets_of_lookup {entries : Entries} (h : pending.lookup kind = some entries) :
    kind ∈ pending.targets := by
  apply Decidable.byContradiction
  intro hnot
  rw [lookup_eq_none.2 hnot] at h
  cases h

theorem lookup_of_mem {entries : Entries} (hnodup : pending.targets.Nodup)
    (h : (kind, entries) ∈ pending) : pending.lookup kind = some entries := by
  induction pending with
  | nil => cases h
  | cons entry pending ih =>
    obtain ⟨hnot, hnodup⟩ := List.nodup_cons.1 hnodup
    rcases List.mem_cons.1 h with rfl | h
    · exact List.lookup_cons_self
    · have hmem : kind ∈ targets pending := List.mem_map_of_mem h
      have hne : kind ≠ entry.1 := by
        rintro rfl
        exact hnot hmem
      rw [lookup_cons_ne hne]
      exact ih hnodup h

theorem perm_without {entries : Entries} (hnodup : pending.targets.Nodup)
    (h : pending.lookup kind = some entries) :
    pending.Perm ((kind, entries) :: pending.without kind) := by
  induction pending with
  | nil => cases h
  | cons entry pending ih =>
    obtain ⟨target, waiting⟩ := entry
    obtain ⟨hnot, hnodup⟩ := List.nodup_cons.1 hnodup
    by_cases htarget : kind = target
    · subst htarget
      rw [List.lookup_cons_self, Option.some.injEq] at h
      subst h
      have hsame : without ((kind, waiting) :: pending) kind = without pending kind :=
        List.filter_cons_of_neg (by simp)
      rw [hsame, without_of_not_mem hnot]
    · have hkept : without ((target, waiting) :: pending) kind =
          (target, waiting) :: without pending kind :=
        List.filter_cons_of_pos (by simpa using Ne.symm htarget)
      rw [lookup_cons_ne htarget] at h
      rw [hkept]
      exact ((ih hnodup h).cons _).trans (List.Perm.swap ..)

theorem newSections_perm {others : Pending} (h : pending.Perm others) :
    (newSections pending).Perm (newSections others) := h.map _

theorem filter_swap (p q : SectionKind × Entries → Bool) (pending : Pending) :
    (pending.filter p).filter q = (pending.filter q).filter p := by
  rw [List.filter_filter, List.filter_filter]
  simp only [Bool.and_comm]

/-- Sections before and after splicing, in a file whose sections have the given ids. -/
inductive Spliced (ids : List UInt8) : Pending → List Section → List Section → Prop
  | nil : Spliced ids [] [] []
  | make {pending kind entries sections spliced} (hlookup : pending.lookup kind = some entries)
      (habsent : kind.id ∉ ids) (h : Spliced ids (pending.without kind) sections spliced) :
      Spliced ids pending sections (⟨kind.id, entries.contents⟩ :: spliced)
  | extend {pending kind entries s contents sections spliced} (hid : s.id = kind.id)
      (hlookup : pending.lookup kind = some entries)
      (hcontents : entries.appendTo kind s.contents = .ok contents)
      (h : Spliced ids (pending.without kind) sections spliced) :
      Spliced ids pending (s :: sections) (⟨s.id, contents⟩ :: spliced)
  | keep {pending s sections spliced} (hnot : ∀ target ∈ pending.targets, s.id ≠ target.id)
      (h : Spliced ids pending sections spliced) :
      Spliced ids pending (s :: sections) (s :: spliced)

namespace Spliced

/-- New sections for all that is due are made one after the other. -/
theorem makeAll (due : SectionKind → Bool) (hnodup : pending.targets.Nodup)
    (habsent : ∀ target ∈ pending.targets, due target = true → target.id ∉ ids)
    (h : Spliced ids (pending.filter fun entry => !due entry.1) sections spliced) :
    Spliced ids pending sections
      (newSections (pending.filter fun entry => due entry.1) ++ spliced) := by
  generalize hnow : (pending.filter fun entry => due entry.1) = now
  induction now generalizing pending with
  | nil =>
    have hall : (pending.filter fun entry => !due entry.1) = pending := by
      rw [List.filter_eq_self]
      intro entry hentry
      simpa using List.filter_eq_nil_iff.1 hnow entry hentry
    rw [hall] at h
    exact h
  | cons entry now ih =>
    obtain ⟨target, entries⟩ := entry
    have hmem : (target, entries) ∈ pending ∧ due target = true := by
      have hfirst : (target, entries) ∈ (pending.filter fun entry => due entry.1) := by
        rw [hnow]
        exact List.mem_cons_self ..
      simpa using hfirst
    have htarget : target ∈ pending.targets := List.mem_map_of_mem hmem.1
    have hnot : ∀ other ∈ now, other.1 ≠ target := by
      have hsub : targets ((target, entries) :: now) |>.Nodup := by
        rw [← hnow]
        exact hnodup.sublist (List.filter_sublist.map _)
      intro other hother heq
      have hother : other.1 ∈ targets now := List.mem_map_of_mem hother
      exact (List.nodup_cons.1 hsub).1 (heq ▸ hother)
    have hlater : ((pending.without target).filter fun entry => due entry.1) = now := by
      rw [without, filter_swap, hnow, List.filter_cons_of_neg (by simp), List.filter_eq_self]
      intro other hother
      simpa using hnot other hother
    have hwaiting : ((pending.without target).filter fun entry => !due entry.1) =
        pending.filter fun entry => !due entry.1 := by
      rw [without, filter_swap, List.filter_eq_self]
      intro other hother
      have hother := (List.mem_filter.1 hother).2
      rw [bne_iff_ne]
      rintro rfl
      simp [hmem.2] at hother
    refine make (lookup_of_mem hnodup hmem.1) (habsent target htarget hmem.2) (ih ?_ ?_ ?_ hlater)
    · exact hnodup.sublist (List.filter_sublist.map _)
    · intro other hother
      exact habsent other (mem_targets_without.1 hother).1
    · rw [hwaiting]
      exact h

/-- The sections of a kind are what placing the entries for that kind makes of them. -/
theorem placed (hids : ∀ s ∈ sections, s.id ∈ ids) (h : Spliced ids pending sections spliced)
    (kind : SectionKind) :
    Entries.placed kind (pending.lookup kind) (Section.ofKind kind sections) =
      .ok (Section.ofKind kind spliced) := by
  induction h with
  | nil => rfl
  | @make pending target entries sections spliced hlookup habsent h ih =>
    have ih := ih hids
    by_cases htarget : kind = target
    · subst htarget
      have hnone : Section.ofKind kind sections = [] := by
        apply Section.ofKind_eq_nil
        intro s hs heq
        exact habsent (heq ▸ hids s hs)
      rw [lookup_without_self, hnone] at ih
      rw [hlookup, hnone, Section.ofKind_cons_self rfl, ← Except.ok.inj ih]
      rfl
    · rw [lookup_without_ne htarget] at ih
      rw [Section.ofKind_cons_ne fun heq => htarget (SectionKind.id_injective heq).symm]
      exact ih
  | @extend pending target entries s contents sections spliced hid hlookup hcontents h ih =>
    have ih := ih fun t ht => hids t (List.mem_cons_of_mem _ ht)
    by_cases htarget : kind = target
    · subst htarget
      rw [lookup_without_self] at ih
      rw [hlookup, Section.ofKind_cons_self hid, Entries.placed, hcontents,
        Section.ofKind_cons_self (s := ⟨s.id, contents⟩) hid, ← Except.ok.inj ih]
      rfl
    · have hne : s.id ≠ kind.id := fun heq =>
        htarget (SectionKind.id_injective (heq.symm.trans hid))
      rw [lookup_without_ne htarget] at ih
      rw [Section.ofKind_cons_ne hne, Section.ofKind_cons_ne (s := ⟨s.id, contents⟩) hne]
      exact ih
  | @keep pending s sections spliced hnot h ih =>
    have ih := ih fun t ht => hids t (List.mem_cons_of_mem _ ht)
    by_cases hid : s.id = kind.id
    · have hlookup : pending.lookup kind = none := lookup_eq_none.2 fun hmem => hnot kind hmem hid
      rw [hlookup] at ih ⊢
      rw [Section.ofKind_cons_self hid, Section.ofKind_cons_self hid]
      exact congrArg (fun rest => Except.ok (s :: rest)) (Except.ok.inj ih)
    · rw [Section.ofKind_cons_ne hid, Section.ofKind_cons_ne hid]
      exact ih

theorem id_lt (hids : ∀ s ∈ sections, s.id < 0x80) (h : Spliced ids pending sections spliced) :
    ∀ s ∈ spliced, s.id < 0x80 := by
  induction h with
  | nil => exact List.forall_mem_nil _
  | make hlookup habsent h ih => exact List.forall_mem_cons.2 ⟨SectionKind.id_lt _, ih hids⟩
  | extend hid hlookup hcontents h ih =>
    obtain ⟨hfirst, hrest⟩ := List.forall_mem_cons.1 hids
    exact List.forall_mem_cons.2 ⟨hfirst, ih hrest⟩
  | keep hnot h ih =>
    obtain ⟨hfirst, hrest⟩ := List.forall_mem_cons.1 hids
    exact List.forall_mem_cons.2 ⟨hfirst, ih hrest⟩

/-- The sections that were there are there still, in their order. -/
theorem ids_kept (hids : ∀ s ∈ sections, s.id ∈ ids) (h : Spliced ids pending sections spliced) :
    (Section.kept ids spliced).map (·.id) = sections.map (·.id) := by
  induction h with
  | nil => rfl
  | make hlookup habsent h ih =>
    rw [Section.kept_cons_not_mem habsent]
    exact ih hids
  | @extend pending kind entries s contents sections spliced hid hlookup hcontents h ih =>
    obtain ⟨hfirst, hrest⟩ := List.forall_mem_cons.1 hids
    rw [Section.kept_cons_mem (s := ⟨s.id, contents⟩) hfirst, List.map_cons, List.map_cons,
      ih hrest]
  | keep hnot h ih =>
    obtain ⟨hfirst, hrest⟩ := List.forall_mem_cons.1 hids
    rw [Section.kept_cons_mem hfirst, List.map_cons, List.map_cons, ih hrest]

/-- The first section of a kind receives what waits for the kind. -/
theorem receives (hids : ∀ s ∈ sections, s.id ∈ ids) (h : Spliced ids pending sections spliced)
    {entries : Entries} {i : Nat} (hlookup : pending.lookup kind = some entries)
    (hfirst : Section.first? kind sections = some i) :
    ∃ s contents, sections[i]? = some s ∧ entries.appendTo kind s.contents = .ok contents ∧
      (Section.kept ids spliced)[i]? = some ⟨s.id, contents⟩ := by
  induction h generalizing i with
  | nil => cases hfirst
  | @make pending target waiting sections spliced hlookup' habsent h ih =>
    obtain ⟨s, hs, hid⟩ := Section.mem_of_first? hfirst
    have hne : kind ≠ target := by
      rintro rfl
      exact habsent (hid ▸ hids s hs)
    rw [Section.kept_cons_not_mem habsent]
    exact ih hids ((lookup_without_ne hne pending).trans hlookup) hfirst
  | @extend pending target waiting s contents sections spliced hid hlookup' hcontents h ih =>
    obtain ⟨hmem, hrest⟩ := List.forall_mem_cons.1 hids
    rw [Section.kept_cons_mem (s := ⟨s.id, contents⟩) hmem]
    by_cases htarget : kind = target
    · subst htarget
      rw [Section.first?_cons_self hid] at hfirst
      cases hfirst
      rw [hlookup] at hlookup'
      cases hlookup'
      exact ⟨s, contents, rfl, hcontents, rfl⟩
    · have hne : s.id ≠ kind.id := fun heq =>
        htarget (SectionKind.id_injective (heq.symm.trans hid))
      rw [Section.first?_cons_ne hne] at hfirst
      obtain ⟨j, hj, rfl⟩ := Option.map_eq_some_iff.1 hfirst
      exact ih hrest ((lookup_without_ne htarget pending).trans hlookup) hj
  | @keep pending s sections spliced hnot h ih =>
    obtain ⟨hmem, hrest⟩ := List.forall_mem_cons.1 hids
    rw [Section.kept_cons_mem hmem]
    rw [Section.first?_cons_ne (hnot kind (mem_targets_of_lookup hlookup))] at hfirst
    obtain ⟨j, hj, rfl⟩ := Option.map_eq_some_iff.1 hfirst
    exact ih hrest hlookup hj

/-- Every section that is not the first of a kind for which something waits stays as it is. -/
theorem verbatim (hids : ∀ s ∈ sections, s.id ∈ ids) (h : Spliced ids pending sections spliced)
    {i : Nat} (hnot : ∀ kind ∈ pending.targets, Section.first? kind sections ≠ some i) :
    (Section.kept ids spliced)[i]? = sections[i]? := by
  induction h generalizing i with
  | nil => rfl
  | make hlookup habsent h ih =>
    rw [Section.kept_cons_not_mem habsent]
    apply ih hids
    intro kind hkind
    exact hnot kind (mem_targets_without.1 hkind).1
  | @extend pending target entries s contents sections spliced hid hlookup hcontents h ih =>
    obtain ⟨hmem, hrest⟩ := List.forall_mem_cons.1 hids
    rw [Section.kept_cons_mem (s := ⟨s.id, contents⟩) hmem]
    cases i with
    | zero =>
      exact absurd (Section.first?_cons_self hid) (hnot target (mem_targets_of_lookup hlookup))
    | succ i =>
      rw [List.getElem?_cons_succ, List.getElem?_cons_succ]
      apply ih hrest
      intro kind hkind hi
      obtain ⟨hkind, hne⟩ := mem_targets_without.1 hkind
      apply hnot kind hkind
      rw [Section.first?_cons_ne fun heq => hne (SectionKind.id_injective (heq.symm.trans hid)), hi]
      rfl
  | @keep pending s sections spliced hother h ih =>
    obtain ⟨hmem, hrest⟩ := List.forall_mem_cons.1 hids
    rw [Section.kept_cons_mem hmem]
    cases i with
    | zero => rfl
    | succ i =>
      rw [List.getElem?_cons_succ, List.getElem?_cons_succ]
      apply ih hrest
      intro kind hkind hi
      apply hnot kind hkind
      rw [Section.first?_cons_ne (hother kind hkind), hi]
      rfl

/-- What waits for absent kinds becomes a section of its own, and nothing else does. -/
theorem created_perm (hnodup : pending.targets.Nodup) (hids : ∀ s ∈ sections, s.id ∈ ids)
    (h : Spliced ids pending sections spliced) :
    (Section.created ids spliced).Perm
      (newSections (pending.filter fun entry => !ids.contains entry.1.id)) := by
  induction h with
  | nil => exact List.Perm.refl _
  | @make pending kind entries sections spliced hlookup habsent h ih =>
    have hperm := (perm_without hnodup hlookup).filter fun entry => !ids.contains entry.1.id
    rw [List.filter_cons_of_pos (by simpa using habsent)] at hperm
    rw [Section.created_cons_not_mem habsent]
    have ih := ih (hnodup.sublist (List.filter_sublist.map _)) hids
    exact (ih.cons _).trans (newSections_perm hperm).symm
  | @extend pending kind entries s contents sections spliced hid hlookup hcontents h ih =>
    obtain ⟨hmem, hrest⟩ := List.forall_mem_cons.1 hids
    have hperm := (perm_without hnodup hlookup).filter fun entry => !ids.contains entry.1.id
    rw [List.filter_cons_of_neg (by simpa [hid] using hmem)] at hperm
    rw [Section.created_cons_mem (s := ⟨s.id, contents⟩) hmem]
    have ih := ih (hnodup.sublist (List.filter_sublist.map _)) hrest
    exact ih.trans (newSections_perm hperm).symm
  | keep hnot h ih =>
    obtain ⟨hmem, hrest⟩ := List.forall_mem_cons.1 hids
    rw [Section.created_cons_mem hmem]
    exact ih hnodup hrest

end Spliced

variable {present : SectionKind → Bool}

/-- Past a section of its own kind and what was due before it, the rest can still be placed. -/
theorem Placeable.next {s : Section} {here : SectionKind}
    (h : Placeable present pending (s :: sections)) (hid : s.id = here.id) :
    Placeable present (without (pending.filter fun e => !isDue present here e.1) here) sections := by
  refine ((h.filter fun e => !isDue present here e.1).filter fun e => e.1 != here).tail ?_
  intro target htarget heq
  have hne := (mem_targets_without.1 htarget).2
  exact hne (SectionKind.id_injective (heq.symm.trans hid))

theorem spliced_of_splice (hpresent : ∀ target, present target = true ↔ target.id ∈ ids)
    (hplace : Placeable present pending sections)
    (h : splice present pending sections = .ok spliced) : Spliced ids pending sections spliced := by
  induction sections generalizing pending spliced with
  | nil =>
    cases h
    -- Whatever still waits is absent from the whole file.
    have habsent : ∀ target ∈ pending.targets, true = true → target.id ∉ ids := by
      intro target htarget _ hmem
      obtain ⟨s, hs, -⟩ := (hplace.present_iff target htarget).1 ((hpresent target).2 hmem)
      cases hs
    have hmake : Spliced ids pending [] (newSections (pending.filter fun _ => true) ++ []) := by
      refine Spliced.makeAll (fun _ => true) hplace.nodup habsent ?_
      rw [List.filter_eq_nil_iff.2 fun _ _ => by simp]
      exact Spliced.nil
    rw [List.filter_eq_self.2 fun _ _ => rfl, List.append_nil] at hmake
    exact hmake
  | cons s sections ih =>
    cases hkind : s.kind? with
    | none =>
      have hid : ∀ target ∈ pending.targets, s.id ≠ target.id :=
        fun target _ => Section.kind?_eq_none_iff.1 hkind target
      rw [splice, hkind] at h
      obtain ⟨rest, hrest, h⟩ := Except.bind_eq_ok h
      cases h
      exact Spliced.keep hid (ih (hplace.tail hid) hrest)
    | some here =>
      have hid : s.id = here.id := Section.kind?_eq_some_iff.1 hkind
      obtain ⟨contents, others, hhere, hothers, rfl⟩ := splice_cons hplace.nodup hkind h
      have hrest := ih (hplace.next hid) hothers
      apply Spliced.makeAll _ hplace.nodup
      · intro target _ hdue hmem
        rw [isDue, (hpresent target).2 hmem] at hdue
        cases hdue
      · generalize (pending.filter fun e => !isDue present here e.1) = waiting at hhere hrest ⊢
        cases hlookup : waiting.lookup here with
        | some entries =>
          rw [hlookup] at hhere
          obtain ⟨contents', hcontents, heq⟩ := Except.bind_eq_ok hhere
          cases heq
          exact Spliced.extend hid hlookup hcontents hrest
        | none =>
          rw [hlookup] at hhere
          have heq : [s] = [⟨s.id, contents⟩] := Except.ok.inj hhere
          have hsame : s.contents = contents := congrArg Section.contents (List.cons.inj heq).1
          subst hsame
          have hnot : here ∉ targets waiting := lookup_eq_none.1 hlookup
          rw [without_of_not_mem hnot] at hrest
          refine Spliced.keep ?_ hrest
          intro target htarget heq
          exact hnot (SectionKind.id_injective (heq.symm.trans hid) ▸ htarget)

end Pending

end WasmSnapshot
