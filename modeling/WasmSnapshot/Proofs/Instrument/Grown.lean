import WasmSnapshot.Proofs.Instrument.Append

/-! The outline of an output. It is taken in step with the outline of the input: at each place the
outline of the output is that of the input with more types and functions, as many more as were added
up to there. A section that was made counts as an empty one that entries were added to. -/

namespace WasmSnapshot

namespace Outline

variable {outline result : Outline} {s : Section} {sections spliced : List Section}
  {additions : Additions} {kind : SectionKind} {ids : List UInt8} {types functions : Nat}

/-- An outline with other sections, and with more types and functions. -/
def grown (outline : Outline) (ids : List UInt8) (types functions : Nat) : Outline :=
  { outline with
    sectionIds := ids
    typeCount := outline.typeCount + UInt32.ofNat types
    ownFunctions := outline.ownFunctions + UInt32.ofNat functions }

/-- The ids of an outline that has grown are its own. -/
theorem addSection_grown_of_kind (hid : s.id = kind.id) (others : List UInt8) :
    (outline.grown ids types functions).addSection s =
      (grown { outline with sectionIds := others } (ids ++ [s.id]) types functions).addContents s
        kind :=
  addSection_of_kind hid

theorem contentsOf_of_whole {α : Type} {contents : Reader α} {value : α}
    (h : contents.whole s.contents = some value) : contentsOf s contents = .ok value := by
  rw [contentsOf, h]

/-- The other way round than `typeCount_of_addTypes`: types for which there is room are counted. -/
theorem foldlM_addTypes {groups : List (List SubType)}
    (hroom : outline.typeCount.toNat + groups.flatten.length < 2 ^ 32) :
    groups.foldlM (fun outline group => outline.addTypes group.length) outline =
      .ok { outline with
        typeCount := outline.typeCount + UInt32.ofNat groups.flatten.length } := by
  induction groups generalizing outline with
  | nil => simp [pure, Except.pure]
  | cons group groups ih =>
    rw [List.flatten_cons, List.length_append] at hroom
    have hlt : outline.typeCount.toNat + group.length < UInt32.size :=
      Nat.lt_of_le_of_lt (by omega) hroom
    have hstep : outline.addTypes group.length =
        .ok { outline with typeCount := outline.typeCount + UInt32.ofNat group.length } := by
      rw [addTypes, if_pos hlt]
    have hcount : (outline.typeCount + UInt32.ofNat group.length).toNat =
        outline.typeCount.toNat + group.length := by
      have hgroup : group.length < 2 ^ 32 := by omega
      rw [UInt32.toNat_add, UInt32.toNat_ofNat', Nat.mod_eq_of_lt hgroup, Nat.mod_eq_of_lt hlt]
    rw [List.foldlM_cons, hstep]
    refine (ih (by simp only [hcount]; omega)).trans ?_
    rw [List.flatten_cons, List.length_append, UInt32.ofNat_add, UInt32.add_assoc]

/-- A group of types after those that were counted already. -/
theorem foldlM_addTypes_grown {groups : List (List SubType)} (added : List (List SubType))
    (ids : List UInt8) (types functions : Nat)
    (h : groups.foldlM (fun outline group => outline.addTypes group.length) outline = .ok result)
    (hroom : result.typeCount.toNat + types + added.flatten.length < 2 ^ 32) :
    (groups ++ added).foldlM (fun outline group => outline.addTypes group.length)
        (outline.grown ids types functions) =
      .ok (result.grown ids (types + added.flatten.length) functions) := by
  obtain ⟨count, rfl, hcount⟩ := typeCount_of_addTypes h
  have hcounted : count = outline.typeCount + UInt32.ofNat groups.flatten.length := by
    have hlt := count.toNat_lt
    rw [← UInt32.toNat_inj, UInt32.toNat_add, UInt32.toNat_ofNat', hcount]
    omega
  have htypes : (outline.typeCount + UInt32.ofNat types).toNat =
      outline.typeCount.toNat + types := by
    simp only at hroom
    rw [UInt32.toNat_add, UInt32.toNat_ofNat']
    omega
  rw [foldlM_addTypes]
  · simp only [grown, hcounted, List.flatten_append, List.length_append, UInt32.ofNat_add]
    congr 2
    ac_rfl
  · simp only [grown, htypes, List.flatten_append, List.length_append]
    simp only at hroom
    omega

/-- A section that stays as it is, taken in by an outline that has grown. -/
theorem addContents_grown (h : outline.addContents s kind = .ok result)
    (hroom : result.typeCount.toNat + types < 2 ^ 32)
    (hfunctions : kind = .functions → functions = 0) :
    (outline.grown ids types functions).addContents s kind =
      .ok (result.grown ids types functions) := by
  cases kind with
  | types =>
    obtain ⟨groups, hgroups, h⟩ := Except.bind_eq_ok h
    have hgrown := foldlM_addTypes_grown [] ids types functions h hroom
    rw [List.append_nil] at hgrown
    rw [addContents, hgroups]
    exact hgrown
  | imports =>
    obtain ⟨imports, himports, h⟩ := Except.bind_eq_ok h
    rw [addContents, himports]
    cases h
    simp only [bind, Except.bind, pure, Except.pure, foldl_addImport, grown]
  | functions =>
    obtain ⟨count, hcount, h⟩ := Except.bind_eq_ok h
    cases hfunctions rfl
    rw [addContents, hcount]
    cases h
    simp [bind, Except.bind, pure, Except.pure, grown]
  | tables | memories =>
    obtain ⟨count, hcount, h⟩ := Except.bind_eq_ok h
    rw [addContents, hcount]
    simp only [bind, Except.bind] at h ⊢
    split at h
    · next hpos =>
      cases h
      rw [if_pos hpos]
      rfl
    · next hpos =>
      cases h
      rw [if_neg hpos]
      rfl
  | globals =>
    obtain ⟨globals, hglobals, h⟩ := Except.bind_eq_ok h
    rw [addContents, hglobals]
    cases h
    rfl
  | start | dataCount =>
    obtain ⟨value, hvalue, h⟩ := Except.bind_eq_ok h
    rw [addContents, hvalue]
    cases h
    rfl
  | tags | exports | elements | code | data =>
    obtain ⟨entries, hentries, h⟩ := Except.bind_eq_ok h
    rw [addContents, hentries]
    cases h
    rfl

theorem addSection_grown (h : outline.addSection s = .ok result)
    (hroom : result.typeCount.toNat + types < 2 ^ 32)
    (hfunctions : s.id = SectionKind.functions.id → functions = 0) :
    (outline.grown ids types functions).addSection s =
      .ok (result.grown (ids ++ [s.id]) types functions) := by
  cases hkind : s.kind? with
  | some kind =>
    have hid := Section.kind?_eq_some_iff.1 hkind
    rw [addSection_of_kind hid] at h
    rw [addSection_grown_of_kind hid (outline.sectionIds ++ [s.id])]
    refine addContents_grown h hroom ?_
    rintro rfl
    exact hfunctions hid
  | none =>
    have hid := Section.kind?_eq_none_iff.1 hkind
    rw [addSection_of_unknown hid h, eq_of_addSection_unknown hid h]
    rfl

/-- Entries that are not decoded are counted all the same. -/
theorem whole_readOpaqueEntries_appendTo {entries : Entries} {old contents : Bytes} {count : Nat}
    (h : readOpaqueEntries.whole old = some count)
    (happend : entries.appendTo kind old = .ok contents) :
    readOpaqueEntries.whole contents = some (count + entries.count.toNat) := by
  obtain ⟨count', bytes, hsize, hrest⟩ := Reader.bind_eq_some (Reader.whole_eq_some h)
  cases hrest
  obtain ⟨hsum, rfl⟩ := Entries.appendTo_eq_ok hsize happend
  apply Reader.whole_of_eq_some
  rw [readOpaqueEntries, Reader.bind_of_eq_some (Leb128.size_encode hsum _)]
  rfl

end Outline

namespace Additions

variable {selection : Selection} {symbol : String} {base outline result : Outline} {s : Section}
  {additions : Additions} {kind : SectionKind} {ids : List UInt8} {types functions : Nat}

/-- How many types are added to the sections of a kind. -/
def typesFor (additions : Additions) : SectionKind → Nat
  | .types => additions.signatures.size
  | _ => 0

/-- How many functions are added to the sections of a kind. -/
def functionsFor (additions : Additions) : SectionKind → Nat
  | .functions => additions.functions.size
  | _ => 0

theorem length_flatten_signatures (signatures : List Signature) :
    (signatures.map fun s => [(⟨[], false, .func s.type⟩ : SubType)]).flatten.length =
      signatures.length := by
  induction signatures with
  | nil => rfl
  | cons s signatures ih =>
    rw [List.map_cons, List.flatten_cons, List.length_append, ih, List.length_cons]
    exact Nat.add_comm 1 _

/-- A section with the additions for its kind, taken in by an outline that has grown. -/
theorem addContents_extended (hlisted : Listed selection symbol base additions)
    (hsize : additions.size kind < 2 ^ 32) (hkind : kind ∈ targets) {contents : Bytes}
    (h : outline.addContents s kind = .ok result)
    (happend : (additions.entries kind).appendTo kind s.contents = .ok contents)
    (hroom : result.typeCount.toNat + types + additions.typesFor kind < 2 ^ 32)
    (hfunctions : kind = .functions → functions = 0) :
    (outline.grown ids types functions).addContents ⟨s.id, contents⟩ kind =
      .ok (result.grown ids (types + additions.typesFor kind)
        (functions + additions.functionsFor kind)) := by
  cases kind with
  | types =>
    obtain ⟨groups, hgroups, h⟩ := Except.bind_eq_ok h
    have hwhole := Entries.whole_appendTo hsize
      (fun signature _ => Signature.reads_encode signature) (Outline.contentsOf_eq_ok hgroups)
      happend
    generalize hnew : (additions.signatures.toList.map fun s =>
      [(⟨[], false, .func s.type⟩ : SubType)]) = new at hwhole
    have hlength : new.flatten.length = additions.signatures.size := by
      rw [← hnew, length_flatten_signatures]
      exact Array.length_toList
    rw [typesFor, ← hlength] at hroom ⊢
    have hgrown := Outline.foldlM_addTypes_grown new ids types functions h hroom
    rw [Outline.addContents, Outline.contentsOf_of_whole (s := ⟨s.id, contents⟩) hwhole]
    exact hgrown
  | functions =>
    obtain ⟨count, hcount, h⟩ := Except.bind_eq_ok h
    cases hfunctions rfl
    have hwhole :=
      Outline.whole_readOpaqueEntries_appendTo (Outline.contentsOf_eq_ok hcount) happend
    rw [count_entries hsize] at hwhole
    rw [Outline.addContents, Outline.contentsOf_of_whole (s := ⟨s.id, contents⟩) hwhole]
    cases h
    simp [bind, Except.bind, pure, Except.pure, Outline.grown, typesFor, functionsFor, size,
      UInt32.ofNat_add]
  | exports =>
    obtain ⟨count, hcount, h⟩ := Except.bind_eq_ok h
    have hwhole :=
      Outline.whole_readOpaqueEntries_appendTo (Outline.contentsOf_eq_ok hcount) happend
    rw [Outline.addContents, Outline.contentsOf_of_whole (s := ⟨s.id, contents⟩) hwhole]
    cases h
    rfl
  | code =>
    obtain ⟨bodies, hbodies, h⟩ := Except.bind_eq_ok h
    have hwhole : Outline.readOpaqueBodies.whole contents = some (bodies ++
        (accessorFunctions selection base).map (·.body)) := by
      have hentries : additions.entries .code = .ofList (fun f : AccessorFunction =>
          Instr.encodeBody f.code) (accessorFunctions selection base) := by
        rw [entries, hlisted.code]
        simp [Entries.ofList, List.flatMap_map]
      rw [hentries] at happend
      have hlength : (accessorFunctions selection base).length < 2 ^ 32 := by
        have := hlisted.indices_lt
        omega
      exact Entries.whole_appendTo hlength (fun f hf => (readable_of_mem hf).reads_opaqueBody)
        (Outline.contentsOf_eq_ok hbodies) happend
    rw [Outline.addContents, Outline.contentsOf_of_whole (s := ⟨s.id, contents⟩) hwhole]
    cases h
    rfl
  | imports | tables | memories | tags | globals | start | elements | dataCount | data =>
    exact absurd hkind (by decide)

theorem addSection_extended (hlisted : Listed selection symbol base additions)
    (hsize : additions.size kind < 2 ^ 32) (hkind : kind ∈ targets) {contents : Bytes}
    (hid : s.id = kind.id) (h : outline.addSection s = .ok result)
    (happend : (additions.entries kind).appendTo kind s.contents = .ok contents)
    (hroom : result.typeCount.toNat + types + additions.typesFor kind < 2 ^ 32)
    (hfunctions : kind = .functions → functions = 0) :
    (outline.grown ids types functions).addSection ⟨s.id, contents⟩ =
      .ok (result.grown (ids ++ [s.id]) (types + additions.typesFor kind)
        (functions + additions.functionsFor kind)) := by
  rw [Outline.addSection_of_kind hid] at h
  rw [Outline.addSection_grown_of_kind (s := ⟨s.id, contents⟩) hid (outline.sectionIds ++ [s.id])]
  exact addContents_extended hlisted hsize hkind h happend hroom hfunctions

/-- An empty section adds nothing to an outline. -/
theorem addContents_empty (hkind : kind ∈ targets)
    (hfunctions : kind = .functions → outline.ownFunctions = 0) :
    outline.addContents ⟨kind.id, [0]⟩ kind = .ok outline := by
  cases kind with
  | types | exports | code => rfl
  | functions =>
    have hzero := hfunctions rfl
    obtain ⟨⟩ := outline
    cases hzero
    rfl
  | imports | tables | memories | tags | globals | start | elements | dataCount | data =>
    exact absurd hkind (by decide)

theorem appendTo_empty (entries : Entries) (kind : SectionKind) :
    entries.appendTo kind [0] = .ok entries.contents := by
  have hempty : Leb128.unsigned 64 [0] = some (0, []) := rfl
  have hlt := entries.count.toNat_lt
  rw [Entries.appendTo, hempty]
  simp only [Nat.zero_add, List.append_nil, if_pos hlt, Entries.contents]

/-- A section that was made, taken in by an outline that has grown. -/
theorem addSection_made (hlisted : Listed selection symbol base additions)
    (hsize : additions.size kind < 2 ^ 32) (hkind : kind ∈ targets)
    (hroom : outline.typeCount.toNat + types + additions.typesFor kind < 2 ^ 32)
    (hfunctions : kind = .functions → functions = 0 ∧ outline.ownFunctions = 0) :
    (outline.grown ids types functions).addSection ⟨kind.id, (additions.entries kind).contents⟩ =
      .ok (outline.grown (ids ++ [kind.id]) (types + additions.typesFor kind)
        (functions + additions.functionsFor kind)) := by
  rw [Outline.addSection_grown_of_kind (s := ⟨kind.id, _⟩) rfl outline.sectionIds]
  exact addContents_extended (s := ⟨kind.id, [0]⟩) hlisted hsize hkind
    (addContents_empty hkind fun h => (hfunctions h).2) (appendTo_empty _ kind) hroom
    fun h => (hfunctions h).1

end Additions

/-- How much waits, of what `amount` tells for each kind. -/
def Pending.total (amount : SectionKind → Nat) (pending : Pending) : Nat :=
  (pending.targets.map amount).sum

theorem Pending.total_of_lookup {pending : Pending} {kind : SectionKind} {entries : Entries}
    (amount : SectionKind → Nat) (hnodup : pending.targets.Nodup)
    (h : pending.lookup kind = some entries) :
    pending.total amount = amount kind + (pending.without kind).total amount := by
  have hperm : pending.targets.Perm (kind :: (pending.without kind).targets) :=
    (perm_without hnodup h).map _
  rw [total, (hperm.map amount).sum_nat, List.map_cons, List.sum_cons, total]

namespace Additions

variable {selection : Selection} {symbol : String} {base outline result : Outline}
  {additions : Additions} {kind : SectionKind} {ids : List UInt8} {types functions : Nat}
  {pending : Pending} {s : Section} {sections spliced : List Section}

/-- What holds on the way through a file that has one section of functions at most: of the entries
that wait still, the sections to come, the outline so far and the functions that were added to it.
Functions are added only where no later section counts them anew. -/
structure Underway (additions : Additions) (ids : List UInt8) (pending : Pending)
    (sections : List Section) (outline : Outline) (functions : Nat) : Prop where
  nodup : pending.targets.Nodup
  waits : ∀ kind entries, pending.lookup kind = some entries →
    kind ∈ targets ∧ entries = additions.entries kind
  present : ∀ s ∈ sections, s.id ∈ ids
  once : (Section.ofKind .functions sections).length ≤ 1
  settled : functions = 0 ∨
    .functions ∉ pending.targets ∧ Section.ofKind .functions sections = []
  absent : SectionKind.functions.id ∉ ids → outline.ownFunctions = 0

theorem Underway.functions_eq_zero (h : Underway additions ids pending sections outline functions)
    (hmem : .functions ∈ pending.targets) : functions = 0 := by
  rcases h.settled with hzero | ⟨hnot, -⟩
  · exact hzero
  · exact absurd hmem hnot

theorem Underway.waits_without (h : Underway additions ids pending sections outline functions)
    (kind : SectionKind) : ∀ other entries, (pending.without kind).lookup other = some entries →
      other ∈ targets ∧ entries = additions.entries other := by
  intro other entries hlookup
  by_cases hother : other = kind
  · subst hother
    rw [Pending.lookup_without_self] at hlookup
    cases hlookup
  · rw [Pending.lookup_without_ne hother] at hlookup
    exact h.waits other entries hlookup

/-- Past a section that is made. -/
theorem Underway.make (h : Underway additions ids pending sections outline functions)
    {entries : Entries} (hlookup : pending.lookup kind = some entries) (habsent : kind.id ∉ ids) :
    Underway additions ids (pending.without kind) sections outline
      (functions + additions.functionsFor kind) where
  nodup := h.nodup.sublist (List.filter_sublist.map _)
  waits := h.waits_without kind
  present := h.present
  once := h.once
  settled := by
    by_cases hkind : kind = .functions
    · subst hkind
      right
      refine ⟨fun hmem => (Pending.mem_targets_without.1 hmem).2 rfl, ?_⟩
      apply Section.ofKind_eq_nil
      intro s hs hid
      exact habsent (hid ▸ h.present s hs)
    · have hzero : additions.functionsFor kind = 0 := by
        cases kind <;> first | rfl | exact absurd rfl hkind
      rw [hzero]
      rcases h.settled with hfunctions | ⟨hnot, hnone⟩
      · exact .inl hfunctions
      · exact .inr ⟨fun hmem => hnot (Pending.mem_targets_without.1 hmem).1, hnone⟩
  absent := h.absent

/-- Past a section that is there, with entries for it or without. -/
theorem Underway.next {rest : Pending} {more : Nat}
    (h : Underway additions ids pending (s :: sections) outline functions)
    (hadd : outline.Advances s result) (hnodup : rest.targets.Nodup)
    (hwaits : ∀ kind entries, rest.lookup kind = some entries →
      kind ∈ targets ∧ entries = additions.entries kind)
    (hsub : ∀ kind ∈ rest.targets, kind ∈ pending.targets ∧ s.id ≠ kind.id)
    (hmore : s.id ≠ SectionKind.functions.id → more = 0) :
    Underway additions ids rest sections result (functions + more) where
  nodup := hnodup
  waits := hwaits
  present t ht := h.present t (List.mem_cons_of_mem _ ht)
  once := Nat.le_trans ((List.sublist_cons_self s sections).filter _).length_le h.once
  settled := by
    by_cases hid : s.id = SectionKind.functions.id
    · have honce := h.once
      rw [Section.ofKind_cons_self hid, List.length_cons] at honce
      right
      refine ⟨fun hmem => (hsub _ hmem).2 hid, List.length_eq_zero_iff.1 (by omega)⟩
    · rw [hmore hid]
      rcases h.settled with hfunctions | ⟨hnot, hnone⟩
      · exact .inl hfunctions
      · rw [Section.ofKind_cons_ne hid] at hnone
        exact .inr ⟨fun hmem => hnot (hsub _ hmem).1, hnone⟩
  absent hnot := by
    have hid : s.id ≠ SectionKind.functions.id := by
      intro heq
      exact hnot (heq ▸ h.present s (List.mem_cons_self ..))
    rw [hadd.ownFunctions hid]
    exact h.absent hnot

/-- The outline of the sections after splicing is that of the sections before, with all the types
and functions that waited. -/
theorem foldlM_spliced (hlisted : Listed selection symbol base additions)
    (hsize : ∀ kind, additions.size kind < 2 ^ 32)
    (hspliced : Pending.Spliced ids pending sections spliced)
    (hway : Underway additions ids pending sections outline functions)
    (h : sections.foldlM Outline.addSection outline = .ok result)
    (hroom : result.typeCount.toNat + types + pending.total additions.typesFor < 2 ^ 32)
    (before : List UInt8) :
    ∃ after, spliced.foldlM Outline.addSection (outline.grown before types functions) =
      .ok (result.grown after (types + pending.total additions.typesFor)
        (functions + pending.total additions.functionsFor)) := by
  induction hspliced generalizing outline before types functions with
  | nil =>
    cases h
    exact ⟨before, rfl⟩
  | @make pending kind entries sections spliced hlookup habsent hspliced ih =>
    obtain ⟨hkind, rfl⟩ := hway.waits kind entries hlookup
    have hle := (Outline.typeCount_of_foldlM h).1
    rw [Pending.total_of_lookup _ hway.nodup hlookup] at hroom
    have hstep : (outline.grown before types functions).addSection
        ⟨kind.id, (additions.entries kind).contents⟩ =
          .ok (outline.grown (before ++ [kind.id]) (types + additions.typesFor kind)
            (functions + additions.functionsFor kind)) := by
      refine addSection_made hlisted (hsize kind) hkind (by omega) ?_
      rintro rfl
      exact ⟨hway.functions_eq_zero (Pending.mem_targets_of_lookup hlookup), hway.absent habsent⟩
    obtain ⟨after, hafter⟩ := ih (hway.make hlookup habsent) h
      (show _ + (types + additions.typesFor kind) + _ < _ by omega) (before ++ [kind.id])
    refine ⟨after, ?_⟩
    rw [List.foldlM_cons, hstep, Pending.total_of_lookup _ hway.nodup hlookup,
      Pending.total_of_lookup _ hway.nodup hlookup, ← Nat.add_assoc, ← Nat.add_assoc]
    exact hafter
  | @extend pending kind entries s contents sections spliced hid hlookup hcontents hspliced ih =>
    obtain ⟨hkind, rfl⟩ := hway.waits kind entries hlookup
    rw [List.foldlM_cons] at h
    obtain ⟨next, hnext, h⟩ := Except.bind_eq_ok h
    have hle := (Outline.typeCount_of_foldlM h).1
    rw [Pending.total_of_lookup _ hway.nodup hlookup] at hroom
    have hstep : (outline.grown before types functions).addSection ⟨s.id, contents⟩ =
        .ok (next.grown (before ++ [s.id]) (types + additions.typesFor kind)
          (functions + additions.functionsFor kind)) := by
      refine addSection_extended hlisted (hsize kind) hkind hid hnext hcontents (by omega) ?_
      rintro rfl
      exact hway.functions_eq_zero (Pending.mem_targets_of_lookup hlookup)
    have hway' : Underway additions ids (pending.without kind) sections next
        (functions + additions.functionsFor kind) := by
      refine hway.next (Outline.advances_of_addSection hnext)
        (hway.nodup.sublist (List.filter_sublist.map _)) (hway.waits_without kind) ?_ ?_
      · intro other hother
        obtain ⟨hmem, hne⟩ := Pending.mem_targets_without.1 hother
        exact ⟨hmem, fun heq => hne (SectionKind.id_injective (heq.symm.trans hid))⟩
      · intro hne
        rw [hid] at hne
        cases kind <;> first | rfl | exact absurd rfl hne
    obtain ⟨after, hafter⟩ := ih hway' h
      (show _ + (types + additions.typesFor kind) + _ < _ by omega) (before ++ [s.id])
    refine ⟨after, ?_⟩
    rw [List.foldlM_cons, hstep, Pending.total_of_lookup _ hway.nodup hlookup,
      Pending.total_of_lookup _ hway.nodup hlookup, ← Nat.add_assoc, ← Nat.add_assoc]
    exact hafter
  | @keep pending s sections spliced hnot hspliced ih =>
    rw [List.foldlM_cons] at h
    obtain ⟨next, hnext, h⟩ := Except.bind_eq_ok h
    have hle := (Outline.typeCount_of_foldlM h).1
    have hstep : (outline.grown before types functions).addSection s =
        .ok (next.grown (before ++ [s.id]) types functions) := by
      refine Outline.addSection_grown hnext (by omega) ?_
      intro hid
      rcases hway.settled with hzero | ⟨-, hnone⟩
      · exact hzero
      · rw [Section.ofKind_cons_self hid] at hnone
        cases hnone
    have hway' : Underway additions ids pending sections next (functions + 0) :=
      hway.next (Outline.advances_of_addSection hnext) hway.nodup hway.waits
        (fun other hother => ⟨hother, hnot other hother⟩) fun _ => rfl
    obtain ⟨after, hafter⟩ := ih hway' h hroom (before ++ [s.id])
    refine ⟨after, ?_⟩
    rw [List.foldlM_cons, hstep]
    exact hafter

/-- Kinds for which nothing waits add nothing. -/
theorem total_pending (hsize : ∀ kind, additions.size kind < 2 ^ 32) (amount : SectionKind → Nat)
    (hamount : ∀ kind, amount kind ≤ additions.size kind) :
    additions.pending.total amount = (targets.map amount).sum := by
  rw [Pending.total, targets_pending hsize]
  generalize targets = kinds
  induction kinds with
  | nil => rfl
  | cons kind kinds ih =>
    by_cases hpos : 0 < additions.size kind
    · rw [List.filter_cons_of_pos (by simpa using hpos), List.map_cons, List.sum_cons, ih]
      rfl
    · have hzero : amount kind = 0 := by
        have := hamount kind
        omega
      rw [List.filter_cons_of_neg (by simpa using hpos), ih, List.map_cons, List.sum_cons, hzero,
        Nat.zero_add]

theorem total_typesFor (hsize : ∀ kind, additions.size kind < 2 ^ 32) :
    additions.pending.total additions.typesFor = additions.signatures.size := by
  rw [total_pending hsize _ fun kind => by cases kind <;> simp [typesFor, size]]
  exact Nat.add_zero _

theorem total_functionsFor (hsize : ∀ kind, additions.size kind < 2 ^ 32) :
    additions.pending.total additions.functionsFor = additions.functions.size := by
  rw [total_pending hsize _ fun kind => by cases kind <;> simp [functionsFor, size]]
  exact (Nat.zero_add _).trans (Nat.add_zero _)

theorem Listed.size_signatures (h : Listed selection symbol outline additions) :
    additions.signatures.size =
      if outline.hasSection .types || !(exposedGlobals selection outline).isEmpty then 3
      else 0 := by
  rw [← Array.length_toList, h.signatures, signaturesFor]
  split <;> rfl

theorem length_accessorFunctions (selection : Selection) (outline : Outline) :
    (accessorFunctions selection outline).length =
      ((exposedGlobals selection outline).map fun exposed => exposed.2.functionCount).sum := by
  have hcount (exposed : UInt32 × IntType) :
      (exposed.2.accessorFunctions exposed.1).length = exposed.2.functionCount := by
    obtain ⟨index, type⟩ := exposed
    cases type <;> rfl
  rw [accessorFunctions, List.length_flatMap]
  simp only [hcount]

theorem Listed.size_functions (h : Listed selection symbol outline additions) :
    additions.functions.size =
      ((exposedGlobals selection outline).map fun exposed => exposed.2.functionCount).sum := by
  rw [← Array.length_toList, h.functions, List.length_map, length_accessorFunctions]

/-- The kinds of the sections that are made. -/
def created (additions : Additions) (outline : Outline) : List SectionKind :=
  targets.filter fun kind => 0 < additions.size kind && !outline.hasSection kind

/-- The outline of an output, against that of the input: more types if there is a section or a use
for them, the functions of all exposed globals, the sections that were made, and nothing else. -/
structure Outlined (selection : Selection) (additions : Additions) (outline result : Outline) :
    Prop where
  typeCount : result.typeCount.toNat = outline.typeCount.toNat +
    if outline.hasSection .types || !(exposedGlobals selection outline).isEmpty then 3 else 0
  ownFunctions : result.ownFunctions.toNat = outline.ownFunctions.toNat +
    ((exposedGlobals selection outline).map fun exposed => exposed.2.functionCount).sum
  sectionIds : result.sectionIds.Perm
    (outline.sectionIds ++ (additions.created outline).map SectionKind.id)
  others : result = { outline with
    sectionIds := result.sectionIds
    typeCount := result.typeCount
    ownFunctions := result.ownFunctions }

end Additions

/-- The outline of the module that a file holds. -/
def Outline.ofBytes (bytes : Bytes) : Except InstrumentError Outline := do
  ofSections (← Section.readModule bytes)

namespace Instrumented.Built

variable {selection : Selection} {symbol : String} {bytes : Bytes} {sections spliced : List Section}
  {outline : Outline} {additions : Additions} {out : Instrumented}

theorem perm_ids (h : Built selection symbol bytes sections outline additions spliced out)
    (hexports : out.exports.length < 2 ^ 32) :
    (spliced.map (·.id)).Perm
      (outline.sectionIds ++ (additions.created outline).map SectionKind.id) := by
  have hids : ∀ s ∈ sections, s.id ∈ sections.map (·.id) := fun s hs => List.mem_map_of_mem hs
  have houtline := Outline.sectionIds_of_ofSections h.outlined
  have hkept := h.placed.ids_kept hids
  have hcreated : ((Section.created (sections.map (·.id)) spliced).map (·.id)).Perm
      ((additions.created outline).map SectionKind.id) := by
    refine ((h.created_perm hexports).map _).trans (List.Perm.of_eq ?_)
    rw [List.map_map, Additions.created]
    simp only [Outline.hasSection, houtline]
    rfl
  have hsplit : (spliced.map (·.id)).Perm
      ((Section.kept (sections.map (·.id)) spliced).map (·.id) ++
        (Section.created (sections.map (·.id)) spliced).map (·.id)) := by
    rw [← List.map_append]
    exact ((List.filter_append_perm _ spliced).map _).symm
  rw [hkept] at hsplit
  rw [houtline]
  exact hsplit.trans (hcreated.append_left _)

/-- The outline of the input, at the first of its sections. -/
theorem underway (h : Built selection symbol bytes sections outline additions spliced out)
    (honce : outline.sectionIds.count SectionKind.functions.id ≤ 1) :
    Additions.Underway additions (sections.map (·.id)) additions.pending sections {} 0 where
  nodup := additions.targets_nodup
  waits _ _ hlookup := Additions.eq_entries_of_lookup hlookup
  present s hs := List.mem_map_of_mem hs
  once := by
    rw [Outline.sectionIds_of_ofSections h.outlined, List.count, List.countP_map,
      List.countP_eq_length_filter] at honce
    exact honce
  settled := .inl rfl
  absent _ := rfl

theorem outline_spliced (h : Built selection symbol bytes sections outline additions spliced out)
    (hlength : bytes.length < 2 ^ 32)
    (honce : outline.sectionIds.count SectionKind.functions.id ≤ 1)
    (hexports : out.exports.length < 2 ^ 32) :
    ∃ result, Outline.ofSections spliced = .ok result ∧
      additions.Outlined selection outline result := by
  have hlisted := Additions.listed_of_ofOutline h.added
  have hsize := h.size_lt hexports
  have hsignatures := hlisted.size_signatures
  have hfunctions := hlisted.size_functions
  have htypes : outline.typeCount.toNat + additions.signatures.size < 2 ^ 32 := by
    have hle := (Outline.typeCount_of_foldlM h.outlined).2
    have hcontents := (Section.of_readModule h.input).2
    have hzero : (({} : Outline).typeCount).toNat = 0 := rfl
    rw [hsignatures]
    split <;> omega
  have hroom :
      outline.typeCount.toNat + 0 + additions.pending.total additions.typesFor < 2 ^ 32 := by
    rw [Additions.total_typesFor hsize]
    exact htypes
  obtain ⟨after, hafter⟩ :=
    Additions.foldlM_spliced hlisted hsize h.placed (h.underway honce) h.outlined hroom []
  rw [Additions.total_typesFor hsize, Additions.total_functionsFor hsize, Nat.zero_add,
    Nat.zero_add] at hafter
  have hcounted := hlisted.indices_lt
  have hfunctionsLength : additions.functions.size =
      (Additions.accessorFunctions selection outline).length := by
    rw [← Array.length_toList, hlisted.functions, List.length_map]
  refine ⟨_, hafter, ?_, ?_, ?_, rfl⟩
  · rw [← hsignatures, Outline.grown, UInt32.toNat_add, UInt32.toNat_ofNat']
    omega
  · rw [← hfunctions, Outline.grown, UInt32.toNat_add, UInt32.toNat_ofNat']
    omega
  · rw [Outline.sectionIds_of_ofSections hafter]
    exact h.perm_ids hexports

end Instrumented.Built

theorem Outline.ofBytes_eq_ok {bytes : Bytes} {outline : Outline} :
    ofBytes bytes = .ok outline ↔
      ∃ sections, Section.readModule bytes = .ok sections ∧ ofSections sections = .ok outline := by
  constructor
  · exact Except.bind_eq_ok
  · rintro ⟨sections, hread, houtline⟩
    rw [ofBytes, hread]
    exact houtline

/-- An output can be outlined, and nothing is lost of the outline of the input. The types may be in
as many sections as they like. Of the functions there may be one section only, as an outline keeps
the count of the last one, while functions are added to the first. -/
theorem outline_of_instrument {selection : Selection} {symbol : String} {bytes : Bytes}
    {outline : Outline} {out : Instrumented} (hlength : bytes.length < 2 ^ 32)
    (houtline : Outline.ofBytes bytes = .ok outline)
    (honce : outline.sectionIds.count SectionKind.functions.id ≤ 1)
    (h : instrument selection symbol bytes = .ok out) (hexports : out.exports.length < 2 ^ 32) :
    ∃ additions result, Additions.ofOutline selection symbol outline = .ok additions ∧
      Outline.ofBytes out.bytes = .ok result ∧ additions.Outlined selection outline result := by
  obtain ⟨sections, hsections, houtline⟩ := Outline.ofBytes_eq_ok.1 houtline
  obtain ⟨sections', outline', additions, spliced, hbuilt⟩ := built_of_instrument h
  obtain rfl : sections = sections' := Except.ok.inj (hsections.symm.trans hbuilt.input)
  obtain rfl : outline = outline' := Except.ok.inj (houtline.symm.trans hbuilt.outlined)
  obtain ⟨result, hresult, houtlined⟩ := hbuilt.outline_spliced hlength honce hexports
  exact ⟨additions, result, hbuilt.added, Outline.ofBytes_eq_ok.2 ⟨spliced, hbuilt.read, hresult⟩,
    houtlined⟩

/-- A module with its code before its functions, these before the imports, and no types. -/
def reversedSections : List Section := [
  ⟨10, [1, 2, 0, 0x0b]⟩,
  ⟨6, [2, 0x7f, 1, 0x41, 5, 0x0b, 0x7e, 1, 0x42, 7, 0x0b]⟩,
  ⟨4, [1, 0x70, 0, 1]⟩,
  ⟨3, [0x81, 0x00, 0]⟩,
  ⟨2, [1, 0, 0, 0, 0]⟩]

theorem outline_of_instrument_reversed : ∃ outline out,
    (Section.encodeModule reversedSections).length < 2 ^ 32 ∧
    Outline.ofBytes (Section.encodeModule reversedSections) = .ok outline ∧
    outline.sectionIds.count SectionKind.functions.id ≤ 1 ∧
    instrument .all "_" (Section.encodeModule reversedSections) = .ok out ∧
    out.exports.length < 2 ^ 32 ∧
    ∃ additions result, Additions.ofOutline .all "_" outline = .ok additions ∧
      Outline.ofBytes out.bytes = .ok result ∧ additions.Outlined .all outline result := by
  have honce : (Outline.ofBytes (Section.encodeModule reversedSections)).toOption.any
      (·.sectionIds.count SectionKind.functions.id ≤ 1) = true := by decide +kernel
  have hfew : (instrument .all "_" (Section.encodeModule reversedSections)).toOption.any
      (·.exports.length < 2 ^ 32) = true := by decide +kernel
  have hlength : (Section.encodeModule reversedSections).length < 2 ^ 32 := by decide +kernel
  cases houtline : Outline.ofBytes (Section.encodeModule reversedSections) with
  | error e =>
    rw [houtline] at honce
    cases honce
  | ok outline =>
    cases h : instrument .all "_" (Section.encodeModule reversedSections) with
    | error e =>
      rw [h] at hfew
      cases hfew
    | ok out =>
      rw [houtline] at honce
      rw [h] at hfew
      have honce : outline.sectionIds.count SectionKind.functions.id ≤ 1 := of_decide_eq_true honce
      have hexports : out.exports.length < 2 ^ 32 := of_decide_eq_true hfew
      exact ⟨outline, out, hlength, rfl, honce, rfl, hexports,
        outline_of_instrument hlength houtline honce h hexports⟩

end WasmSnapshot
