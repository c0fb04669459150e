import WasmSnapshot.Proofs.Instrument.Basic

/-! Where new sections stand. Each is right before the first section of a higher rank that the file
had, or after all its sections if there is none; custom sections and unknown ids have no rank, and
play no part in it. So the order of the format, if the file keeps it, is kept. The order of the
sections depends on their ids alone, and is proved of lists of ids. -/

namespace WasmSnapshot

namespace SectionKind

/-- Whether sections of this kind go before one with the given id, which must have a rank for that. -/
def goesBefore (kind : SectionKind) (id : UInt8) : Bool := (ofId? id).any (kind.rank < ·.rank)

theorem goesBefore_of_some {kind here : SectionKind} {id : UInt8} (h : ofId? id = some here) :
    kind.goesBefore id = decide (kind.rank < here.rank) := by
  rw [goesBefore, h]
  rfl

theorem goesBefore_of_none {kind : SectionKind} {id : UInt8} (h : ofId? id = none) :
    kind.goesBefore id = false := by
  rw [goesBefore, h]
  rfl

/-- The ids of sections, with sections of the given kinds made among them. -/
def arrange (kinds : List SectionKind) : List UInt8 → List UInt8
  | [] => kinds.map (·.id)
  | id :: rest => (kinds.filter (·.goesBefore id)).map (·.id) ++
      id :: arrange (kinds.filter fun kind => !kind.goesBefore id) rest

variable {kinds : List SectionKind} {kind : SectionKind} {ids all : List UInt8}

theorem mem_arrange {id : UInt8} : id ∈ arrange kinds ids ↔ id ∈ kinds.map (·.id) ∨ id ∈ ids := by
  induction ids generalizing kinds with
  | nil => simp [arrange]
  | cons next rest ih =>
    rw [arrange, List.mem_append, List.mem_cons, ih]
    simp only [List.mem_map, List.mem_filter, List.mem_cons]
    constructor
    · rintro (⟨kind, ⟨hkind, -⟩, rfl⟩ | rfl | ⟨kind, ⟨hkind, -⟩, rfl⟩ | hrest)
      · exact .inl ⟨kind, hkind, rfl⟩
      · exact .inr (.inl rfl)
      · exact .inl ⟨kind, hkind, rfl⟩
      · exact .inr (.inr hrest)
    · rintro (⟨kind, hkind, rfl⟩ | rfl | hrest)
      · by_cases hbefore : kind.goesBefore next = true
        · exact .inl ⟨kind, ⟨hkind, hbefore⟩, rfl⟩
        · exact .inr (.inr (.inl ⟨kind, ⟨hkind, by simpa using hbefore⟩, rfl⟩))
      · exact .inr (.inl rfl)
      · exact .inr (.inr (.inr hrest))

/-- Where only new ids stand there is none of the old ones. -/
theorem filter_contains_of_made {front rest : List UInt8} (hnew : ∀ kind ∈ kinds, kind.id ∉ all)
    (h : kinds.map (·.id) = front ++ rest) : front.filter (all.contains ·) = [] := by
  rw [List.filter_eq_nil_iff]
  intro id hid
  have hmem : id ∈ kinds.map (·.id) := by
    rw [h]
    exact List.mem_append_left _ hid
  obtain ⟨kind, hkind, rfl⟩ := List.mem_map.1 hmem
  simpa using hnew kind hkind

/-- Before a new id there are just as many of the old ones as stand before the first one of a higher
rank. -/
theorem position_of_arrange {before after : List UInt8} {id : UInt8}
    (hnew : ∀ kind ∈ kinds, kind.id ∉ all) (hold : ∀ id ∈ ids, id ∈ all)
    (h : arrange kinds ids = before ++ id :: after) (hid : id ∉ all) :
    ∃ kind ∈ kinds, id = kind.id ∧
      (before.filter (all.contains ·)).length = ids.findIdx kind.goesBefore := by
  induction ids generalizing kinds before with
  | nil =>
    have hmem : id ∈ kinds.map (·.id) := by
      rw [← arrange, h]
      simp
    obtain ⟨kind, hkind, rfl⟩ := List.mem_map.1 hmem
    refine ⟨kind, hkind, rfl, ?_⟩
    rw [filter_contains_of_made hnew h]
    rfl
  | cons next rest ih =>
    obtain ⟨hnext, hrest⟩ := List.forall_mem_cons.1 hold
    have hdue : ∀ kind ∈ kinds.filter (·.goesBefore next), kind.id ∉ all :=
      fun kind hkind => hnew kind (List.mem_of_mem_filter hkind)
    have hwaiting : ∀ kind ∈ kinds.filter fun kind => !kind.goesBefore next, kind.id ∉ all :=
      fun kind hkind => hnew kind (List.mem_of_mem_filter hkind)
    rw [arrange] at h
    rcases List.append_eq_append_iff.1 h with ⟨middle, rfl, hafter⟩ | ⟨middle, hfront, hafter⟩
    · -- The new id stands behind the next of the old ones.
      cases middle with
      | nil => exact absurd ((List.cons.inj hafter).1 ▸ hnext) hid
      | cons first middle =>
        obtain ⟨rfl, hlater⟩ := List.cons.inj hafter
        obtain ⟨kind, hkind, hid, hlength⟩ := ih hwaiting hrest hlater
        obtain ⟨hkind, hnot⟩ := List.mem_filter.1 hkind
        rw [Bool.not_eq_true'] at hnot
        refine ⟨kind, hkind, hid, ?_⟩
        rw [List.filter_append, filter_contains_of_made hdue (List.append_nil _).symm,
          List.nil_append, List.filter_cons_of_pos (List.contains_iff_mem.2 hnext),
          List.length_cons, hlength, List.findIdx_cons, hnot]
        rfl
    · -- It stands right before that.
      cases middle with
      | nil => exact absurd ((List.cons.inj hafter).1 ▸ hnext) hid
      | cons first middle =>
        obtain ⟨rfl, -⟩ := List.cons.inj hafter
        have hmem : id ∈ (kinds.filter (·.goesBefore next)).map (·.id) := by
          rw [hfront]
          simp
        obtain ⟨kind, hkind, rfl⟩ := List.mem_map.1 hmem
        obtain ⟨hkind, hbefore⟩ := List.mem_filter.1 hkind
        refine ⟨kind, hkind, rfl, ?_⟩
        rw [filter_contains_of_made hdue hfront, List.findIdx_cons, hbefore]
        rfl

theorem rank_injective {a b : SectionKind} (h : a.rank = b.rank) : a = b := by
  have hmem : a ∈ inOrder := by cases a <;> decide
  exact (List.idxOf_inj hmem).1 h

/-- Kinds in the order of their ranks: those that go before an id come first. -/
theorem filter_goesBefore_append (hsorted : kinds.Pairwise fun a b => a.rank < b.rank) (id : UInt8) :
    kinds.filter (·.goesBefore id) ++ kinds.filter (fun kind => !kind.goesBefore id) = kinds := by
  induction kinds with
  | nil => rfl
  | cons first kinds ih =>
    obtain ⟨hfirst, hsorted⟩ := List.pairwise_cons.1 hsorted
    cases hbefore : first.goesBefore id with
    | true => simp [hbefore, ih hsorted]
    | false =>
      have hlater : ∀ kind ∈ kinds, kind.goesBefore id = false := by
        intro kind hkind
        have hrank := hfirst kind hkind
        cases hid : ofId? id with
        | none => exact goesBefore_of_none hid
        | some here =>
          rw [goesBefore_of_some hid, decide_eq_false_iff_not] at hbefore ⊢
          omega
      have hnone : kinds.filter (·.goesBefore id) = [] :=
        List.filter_eq_nil_iff.2 (by simpa using hlater)
      have hall : kinds.filter (fun kind => !kind.goesBefore id) = kinds :=
        List.filter_eq_self.2 (by simpa using hlater)
      simp [hbefore, hnone, hall]

theorem filter_not_contains_of_new (hnew : ∀ kind ∈ kinds, kind.id ∉ all) :
    (kinds.map (·.id)).filter (!all.contains ·) = kinds.map (·.id) := by
  rw [List.filter_eq_self]
  intro id hid
  obtain ⟨kind, hkind, rfl⟩ := List.mem_map.1 hid
  simpa using hnew kind hkind

/-- The new ids come in the order in which they were given, if that is the order of their ranks. -/
theorem created_arrange (hnew : ∀ kind ∈ kinds, kind.id ∉ all) (hold : ∀ id ∈ ids, id ∈ all)
    (hsorted : kinds.Pairwise fun a b => a.rank < b.rank) :
    (arrange kinds ids).filter (!all.contains ·) = kinds.map (·.id) := by
  induction ids generalizing kinds with
  | nil => exact filter_not_contains_of_new hnew
  | cons next rest ih =>
    obtain ⟨hnext, hrest⟩ := List.forall_mem_cons.1 hold
    have hfilter (p : SectionKind → Bool) : ∀ kind ∈ kinds.filter p, kind.id ∉ all :=
      fun kind hkind => hnew kind (List.mem_of_mem_filter hkind)
    rw [arrange, List.filter_append, filter_not_contains_of_new (hfilter _),
      List.filter_cons_of_neg (by simpa using hnext), ih (hfilter _) hrest (hsorted.filter _),
      ← List.map_append, filter_goesBefore_append hsorted]

theorem filterMap_ofId?_ids (kinds : List SectionKind) :
    (kinds.map (·.id)).filterMap ofId? = kinds := by
  rw [List.filterMap_map]
  have hsome : ofId? ∘ SectionKind.id = some := funext ofId?_id
  exact (congrArg (kinds.filterMap ·) hsome).trans List.filterMap_some

/-- The order of the ranks is kept. -/
theorem pairwise_arrange (hsorted : kinds.Pairwise fun a b => a.rank < b.rank)
    (hnew : ∀ kind ∈ kinds, kind.id ∉ ids)
    (h : (ids.filterMap ofId?).Pairwise fun a b => a.rank < b.rank) :
    ((arrange kinds ids).filterMap ofId?).Pairwise fun a b => a.rank < b.rank := by
  induction ids generalizing kinds with
  | nil =>
    rw [arrange, filterMap_ofId?_ids]
    exact hsorted
  | cons next rest ih =>
    have hwaiting : ∀ kind ∈ kinds.filter fun kind => !kind.goesBefore next, kind.id ∉ rest :=
      fun kind hkind hmem => hnew kind (List.mem_of_mem_filter hkind) (List.mem_cons_of_mem _ hmem)
    rw [arrange, List.filterMap_append, filterMap_ofId?_ids]
    cases hkind : ofId? next with
    | none =>
      have hnone : kinds.filter (·.goesBefore next) = [] := by
        rw [List.filter_eq_nil_iff]
        intro kind _
        simp [goesBefore_of_none hkind]
      rw [List.filterMap_cons_none hkind] at h ⊢
      rw [hnone, List.nil_append]
      exact ih (hsorted.filter _) hwaiting h
    | some here =>
      rw [List.filterMap_cons_some hkind] at h ⊢
      obtain ⟨hhere, h⟩ := List.pairwise_cons.1 h
      have hlater : ∀ other ∈ (arrange (kinds.filter fun kind => !kind.goesBefore next)
          rest).filterMap ofId?, here.rank < other.rank := by
        intro other hother
        obtain ⟨id, hid, hofId⟩ := List.mem_filterMap.1 hother
        rcases mem_arrange.1 hid with hid | hid
        · obtain ⟨kind, hkind', rfl⟩ := List.mem_map.1 hid
          rw [ofId?_id, Option.some.injEq] at hofId
          subst hofId
          obtain ⟨hmem, hnot⟩ := List.mem_filter.1 hkind'
          rw [Bool.not_eq_true', goesBefore_of_some hkind, decide_eq_false_iff_not] at hnot
          have hne : kind.rank ≠ here.rank := by
            intro heq
            rw [rank_injective heq] at hmem
            exact hnew here hmem (id_of_ofId? hkind ▸ List.mem_cons_self)
          omega
        · exact hhere other (List.mem_filterMap.2 ⟨id, hid, hofId⟩)
      have hdue : ∀ kind ∈ kinds.filter (·.goesBefore next), kind.rank < here.rank := by
        intro kind hkind'
        simpa [goesBefore_of_some hkind] using (List.mem_filter.1 hkind').2
      refine List.pairwise_append.2 ⟨hsorted.filter _,
        List.pairwise_cons.2 ⟨hlater, ih (hsorted.filter _) hwaiting h⟩, ?_⟩
      intro kind hkind' other hother
      rcases List.mem_cons.1 hother with rfl | hother
      · exact hdue kind hkind'
      · exact Nat.lt_trans (hdue kind hkind') (hlater other hother)

end SectionKind

theorem Section.filterMap_kind? (sections : List Section) :
    sections.filterMap kind? = (sections.map (·.id)).filterMap SectionKind.ofId? := by
  rw [List.filterMap_map]
  rfl

namespace Pending

variable {pending : Pending} {present : SectionKind → Bool} {sections spliced : List Section}

theorem targets_filter (p : SectionKind → Bool) (pending : Pending) :
    targets (pending.filter fun entry => p entry.1) = pending.targets.filter p := by
  rw [targets, targets, List.filter_map]
  rfl

theorem ids_newSections (pending : Pending) :
    (newSections pending).map (·.id) = pending.targets.map (·.id) := by
  rw [newSections, targets, List.map_map, List.map_map]
  rfl

/-- The ids of spliced sections: what waits for a kind that the file does not have is made a section
in its place. -/
theorem ids_splice (hplace : Placeable present pending sections)
    (h : splice present pending sections = .ok spliced) : spliced.map (·.id) =
      SectionKind.arrange (pending.targets.filter (!present ·)) (sections.map (·.id)) := by
  induction sections generalizing pending spliced with
  | nil =>
    cases h
    have hall : pending.targets.filter (!present ·) = pending.targets := by
      rw [List.filter_eq_self]
      intro target htarget
      rw [Bool.not_eq_true', ← Bool.not_eq_true, hplace.present_iff target htarget]
      simp
    rw [ids_newSections, List.map_nil, SectionKind.arrange, hall]
  | cons s sections ih =>
    cases hkind : s.kind? with
    | none =>
      have hbefore (kind : SectionKind) : kind.goesBefore s.id = false :=
        SectionKind.goesBefore_of_none hkind
      rw [splice, hkind] at h
      obtain ⟨rest, hrest, h⟩ := Except.bind_eq_ok h
      cases h
      have hids := ih (hplace.tail fun target _ => Section.kind?_eq_none_iff.1 hkind target) hrest
      rw [List.map_cons, List.map_cons, SectionKind.arrange, hids]
      simp [hbefore]
    | some here =>
      have hid : s.id = here.id := Section.kind?_eq_some_iff.1 hkind
      have hbefore (kind : SectionKind) : kind.goesBefore s.id = decide (kind.rank < here.rank) :=
        SectionKind.goesBefore_of_some hkind
      obtain ⟨contents, others, -, hothers, rfl⟩ := splice_cons hplace.nodup hkind h
      have hids := ih (hplace.next hid) hothers
      -- What waits for the kind of this section is not for a kind that is absent.
      have hhere : ∀ target ∈ pending.targets, present target = false → target ≠ here := by
        rintro target htarget habsent rfl
        rw [(hplace.present_iff target htarget).2 ⟨s, List.mem_cons_self, hid⟩] at habsent
        cases habsent
      have hdue : targets (pending.filter fun e => isDue present here e.1) =
          (pending.targets.filter (!present ·)).filter (·.goesBefore s.id) := by
        rw [targets_filter (isDue present here), List.filter_filter]
        refine List.filter_congr fun target _ => ?_
        rw [isDue, hbefore, Bool.and_comm]
      have hwaiting : (targets (without (pending.filter fun e => !isDue present here e.1)
          here)).filter (!present ·) =
            (pending.targets.filter (!present ·)).filter fun kind => !kind.goesBefore s.id := by
        rw [without, targets_filter (· != here), targets_filter (!isDue present here ·),
          List.filter_filter, List.filter_filter, List.filter_filter]
        refine List.filter_congr fun target htarget => ?_
        rw [isDue, hbefore]
        cases habsent : present target with
        | true => simp
        | false => simp [hhere target htarget habsent]
      rw [List.map_append, List.map_cons, List.map_cons, SectionKind.arrange, ids_newSections, hdue,
        hids, hwaiting]

end Pending

/-- The sections of an output, among them those that the file did not have. -/
structure Section.InPlace (additions : Additions) (sections spliced : List Section) : Prop where
  /-- The sections of the file are there, in their order. -/
  ids : (kept (sections.map (·.id)) spliced).map (·.id) = sections.map (·.id)
  /-- There is a new section for each kind that has something to be added and that the file has no
  section of, and no other one. -/
  created : (Section.created (sections.map (·.id)) spliced).Perm
    ((Additions.targets.filter fun kind =>
      !(additions.entries kind).isEmpty && !(sections.map (·.id)).contains kind.id).map fun kind =>
        ⟨kind.id, (additions.entries kind).contents⟩)
  /-- Before a new section stand just as many of them as before the first one of a higher rank, which
  is all of them if there is none. -/
  position : ∀ before s after, spliced = before ++ s :: after → s.id ∉ sections.map (·.id) →
    ∃ kind ∈ Additions.targets, s.id = kind.id ∧
      (kept (sections.map (·.id)) before).length = sections.findIdx fun t => kind.goesBefore t.id
  /-- New sections come in the order of their ranks. -/
  ascending : ((Section.created (sections.map (·.id)) spliced).filterMap kind?).Pairwise
    fun a b => a.rank < b.rank
  /-- No new section stands right before one without a rank. -/
  unranked : ∀ before s next after, spliced = before ++ s :: next :: after →
    s.id ∉ sections.map (·.id) → next.kind? ≠ none
  /-- Sections without a rank are what they were. -/
  verbatim : ∀ (i : Nat) (s : Section), sections[i]? = some s → s.kind? = none →
    (kept (sections.map (·.id)) spliced)[i]? = some s

namespace Instrumented.Built

variable {selection : Selection} {symbol : String} {bytes : Bytes} {sections spliced : List Section}
  {outline : Outline} {additions : Additions} {out : Instrumented}

/-- The ids of the sections, with the kinds of the new ones in the order of their ranks. -/
theorem ids_eq (h : Built selection symbol bytes sections outline additions spliced out) :
    ∃ kinds : List SectionKind, (∀ kind ∈ kinds, kind ∈ Additions.targets) ∧
      (kinds.Pairwise fun a b => a.rank < b.rank) ∧
      (∀ kind ∈ kinds, kind.id ∉ sections.map (·.id)) ∧
      spliced.map (·.id) = SectionKind.arrange kinds (sections.map (·.id)) := by
  have hsublist : (additions.pending.targets.filter (!outline.hasSection ·)).Sublist
      Additions.targets := List.filter_sublist.trans additions.targets_sublist
  refine ⟨_, fun _ hkind => hsublist.subset hkind, List.Pairwise.sublist hsublist (by decide), ?_,
    Pending.ids_splice (Additions.placeable h.outlined additions) h.splices⟩
  intro kind hkind hmem
  have habsent := (List.mem_filter.1 hkind).2
  rw [Bool.not_eq_true', ← Bool.not_eq_true, Outline.hasSection_iff h.outlined] at habsent
  exact habsent (by simpa using hmem)

theorem inPlace (h : Built selection symbol bytes sections outline additions spliced out) :
    Section.InPlace additions sections spliced := by
  obtain ⟨kinds, hkinds, hsorted, hnew, hids⟩ := h.ids_eq
  have hmem : ∀ s ∈ sections, s.id ∈ sections.map (·.id) := fun s hs => List.mem_map_of_mem hs
  have hkept : (Section.kept (sections.map (·.id)) spliced).map (·.id) = sections.map (·.id) :=
    h.placed.ids_kept hmem
  have hposition : ∀ before s after, spliced = before ++ s :: after →
      s.id ∉ sections.map (·.id) → ∃ kind ∈ Additions.targets, s.id = kind.id ∧
        (Section.kept (sections.map (·.id)) before).length =
          sections.findIdx fun t => kind.goesBefore t.id := by
    rintro before s after rfl hid
    rw [List.map_append, List.map_cons] at hids
    obtain ⟨kind, hkind, heq, hlength⟩ :=
      SectionKind.position_of_arrange hnew (fun _ hid => hid) hids.symm hid
    refine ⟨kind, hkinds kind hkind, heq, ?_⟩
    rw [List.filter_map, List.length_map, List.findIdx_map] at hlength
    exact hlength
  refine ⟨hkept, h.created_perm_entries, hposition, ?_, ?_, ?_⟩
  · have hcreated : (Section.created (sections.map (·.id)) spliced).map (·.id) =
        kinds.map (·.id) := by
      rw [← SectionKind.created_arrange hnew (fun _ hid => hid) hsorted, ← hids, Section.created,
        List.filter_map]
      rfl
    rw [Section.filterMap_kind?, hcreated, SectionKind.filterMap_ofId?_ids]
    exact hsorted
  · intro before s next after hsplit hid hnone
    obtain ⟨kind, -, -, hlength⟩ := hposition before s (next :: after) hsplit hid
    by_cases hnext : next.id ∈ sections.map (·.id)
    · -- A section of the file that follows a new one has a higher rank than it.
      have hget : (Section.kept (sections.map (·.id)) spliced)[
          (Section.kept (sections.map (·.id)) before).length]? = some next := by
        have hfollows : Section.kept (sections.map (·.id)) spliced =
            Section.kept (sections.map (·.id)) before ++
              next :: Section.kept (sections.map (·.id)) after := by
          rw [hsplit, Section.kept_append, Section.kept_cons_not_mem hid,
            Section.kept_cons_mem hnext]
        rw [hfollows, List.getElem?_append_right (Nat.le_refl _), Nat.sub_self]
        rfl
      have hold := congrArg (Option.map (·.id)) hget
      rw [← List.getElem?_map, hkept, hlength, List.getElem?_map, Option.map_some] at hold
      obtain ⟨t, ht, htid⟩ := Option.map_eq_some_iff.1 hold
      obtain ⟨hlt, rfl⟩ := List.getElem?_eq_some_iff.1 ht
      have hbefore := List.findIdx_getElem (w := hlt)
      rw [htid, SectionKind.goesBefore_of_none hnone] at hbefore
      cases hbefore
    · obtain ⟨other, -, hother, -⟩ := hposition (before ++ [s]) next after (by simp [hsplit]) hnext
      rw [Section.kind?_eq_some_iff.2 hother] at hnone
      cases hnone
  · intro i s hs hnone
    rw [h.placed.verbatim hmem, hs]
    intro kind _ hfirst
    exact Section.kind?_eq_none_iff.1 hnone kind (Section.id_of_first? hfirst hs)

theorem ordered (h : Built selection symbol bytes sections outline additions spliced out)
    (hordered : Section.Ordered sections) : Section.Ordered spliced := by
  obtain ⟨kinds, -, hsorted, hnew, hids⟩ := h.ids_eq
  rw [Section.Ordered, Section.filterMap_kind?] at hordered ⊢
  rw [hids]
  exact SectionKind.pairwise_arrange hsorted hnew hordered

end Instrumented.Built

/-- Whatever file is instrumented, the additions that its outline calls for have the sections that they
need, the new ones stand in their places, and the order of the format is kept. -/
theorem sections_in_place {selection : Selection} {symbol : String} {bytes : Bytes}
    {out : Instrumented} (h : instrument selection symbol bytes = .ok out) :
    ∃ sections outline additions spliced, Section.readModule bytes = .ok sections ∧
      Outline.ofSections sections = .ok outline ∧
      Additions.ofOutline selection symbol outline = .ok additions ∧
      Section.readModule out.bytes = .ok spliced ∧ Section.InPlace additions sections spliced ∧
      (Section.Ordered sections → Section.Ordered spliced) := by
  obtain ⟨sections, outline, additions, spliced, hbuilt⟩ := built_of_instrument h
  exact ⟨sections, outline, additions, spliced, hbuilt.input, hbuilt.outlined, hbuilt.added,
    hbuilt.read, hbuilt.inPlace, hbuilt.ordered⟩

/-- A module with a global and a memory, an unknown and two custom sections, and a last section
without data. -/
def scatteredSections : List Section := [
  ⟨0, [1, 0x61]⟩,
  ⟨6, [1, 0x7e, 1, 0x42, 7, 0x0b]⟩,
  ⟨0x40, [1, 2, 3]⟩,
  ⟨5, [1, 0, 1]⟩,
  ⟨0, [1, 0x62]⟩,
  ⟨11, [0]⟩]

theorem sections_in_place_scattered : ∃ out,
    instrument .all "_" (Section.encodeModule scatteredSections) = .ok out ∧
    ∃ sections outline additions spliced,
      Section.readModule (Section.encodeModule scatteredSections) = .ok sections ∧
      Outline.ofSections sections = .ok outline ∧
      Additions.ofOutline .all "_" outline = .ok additions ∧
      Section.readModule out.bytes = .ok spliced ∧ Section.InPlace additions sections spliced ∧
      (Section.Ordered sections → Section.Ordered spliced) := by
  obtain ⟨out, hout⟩ := Except.exists_of_isOk
    (x := instrument .all "_" (Section.encodeModule scatteredSections)) (by decide +kernel)
  exact ⟨out, hout, sections_in_place hout⟩

example : (instrument .all "_" (Section.encodeModule scatteredSections)).toOption.bind (fun out =>
    (Section.readModule out.bytes).toOption.map (·.map (·.id))) =
      some [0, 1, 3, 6, 0x40, 5, 0, 7, 10, 11] := by decide +kernel

end WasmSnapshot
