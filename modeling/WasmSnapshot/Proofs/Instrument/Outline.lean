import WasmSnapshot.Proofs.Module.Size

/-! What an outline tells of a module whose sections stand in the order of the format: the same as
decoding the sections tells. The invariant is kept from section to section. It speaks of the sections
before the next one, among which there is none of the kinds that come later. -/

namespace WasmSnapshot

theorem UInt32.add_one_add_ofNat (n : UInt32) (k : Nat) :
    n + 1 + UInt32.ofNat k = n + UInt32.ofNat (k + 1) := by
  rw [UInt32.ofNat_add, UInt32.add_assoc, UInt32.add_comm 1]
  rfl

/-- How many items of a kind are imported. -/
def Import.count (kind : ExternKind) (imports : List Import) : Nat :=
  imports.countP (·.type.kind = kind)

namespace Outline

variable {outline result : Outline} {s : Section} {sections : List Section}

/-- How many entries the sections of a kind announce. -/
def announced (kind : SectionKind) (sections : List Section) : Nat :=
  ((Section.ofKind kind sections).map fun s => (readOpaqueEntries.whole s.contents).getD 0).sum

theorem announced_of_nil {kind : SectionKind} (h : Section.ofKind kind sections = []) :
    announced kind sections = 0 := by
  rw [announced, h]
  rfl

theorem announced_congr {kind : SectionKind} {others : List Section}
    (h : Section.ofKind kind others = Section.ofKind kind sections) :
    announced kind others = announced kind sections := by
  rw [announced, announced, h]

theorem announced_of_singleton {kind : SectionKind} {count : Nat}
    (h : Section.ofKind kind sections = [s])
    (hcount : readOpaqueEntries.whole s.contents = some count) :
    announced kind sections = count := by
  rw [announced, h]
  simp [hcount]

theorem whole_readOpaqueEntries {α : Type} {item : Reader α} {contents : Bytes} {values : List α}
    (h : (Reader.counted item).whole contents = some values) :
    readOpaqueEntries.whole contents = some values.length := by
  obtain ⟨entries, hsize, -⟩ := Reader.counted_eq_some (Reader.whole_eq_some h)
  refine Reader.whole_of_eq_some ?_
  rw [readOpaqueEntries, Reader.bind_of_eq_some hsize]
  rfl

/-- Sections that hold the entries that they announce. -/
theorem announced_of_entries? {α : Type} {kind : SectionKind} {item : Reader α} {values : List α}
    (h : Module.entries? sections kind item = some values) :
    announced kind sections = values.length := by
  have hparts (same : List Section) {parts : List (List α)}
      (hparts : (same.mapM fun s => (Reader.counted item).whole s.contents) = some parts) :
      (same.map fun s => (readOpaqueEntries.whole s.contents).getD 0).sum =
        parts.flatten.length := by
    induction same generalizing parts with
    | nil => cases hparts; rfl
    | cons s same ih =>
      rw [List.mapM_cons] at hparts
      obtain ⟨part, hpart, hparts⟩ := Option.bind_eq_some_iff.1 hparts
      obtain ⟨others, hothers, hparts⟩ := Option.bind_eq_some_iff.1 hparts
      cases hparts
      rw [List.map_cons, List.sum_cons, ih hothers, whole_readOpaqueEntries hpart,
        List.flatten_cons, List.length_append]
      rfl
  obtain ⟨parts, hread, hvalues⟩ := Option.bind_eq_some_iff.1 h
  cases hvalues
  exact hparts _ hread

theorem lt_of_readOpaqueEntries {contents : Bytes} {count : Nat}
    (h : readOpaqueEntries.whole contents = some count) : count < 2 ^ 32 := by
  obtain ⟨_, _, hsize, h⟩ := Reader.bind_eq_some (Reader.whole_eq_some h)
  obtain ⟨_, _, -, h⟩ := Reader.bind_eq_some h
  cases h
  exact Leb128.lt_of_unsigned hsize

/-- A section announces no more entries than its count can tell. -/
theorem announced_lt (hordered : Section.Ordered sections)
    (kind : SectionKind) : announced kind sections < 2 ^ 32 := by
  rcases hordered.nil_or_singleton kind with hnone | ⟨s, hs⟩
  · rw [announced_of_nil hnone]
    exact Nat.two_pow_pos 32
  · cases hcount : readOpaqueEntries.whole s.contents with
    | none =>
      simp [announced, hs, hcount]
    | some count =>
      rw [announced_of_singleton hs hcount]
      exact lt_of_readOpaqueEntries hcount

/-- What an outline tells of the sections of a kind is what decoding them tells. -/
def Tells (outline : Outline) (sections : List Section) : SectionKind → Prop
  | .types => ∃ groups, Module.entries? sections .types SubType.readGroup = some groups ∧
    outline.typeCount.toNat = groups.flatten.length
  | .imports => ∃ imports, Module.entries? sections .imports Import.read = some imports ∧
    outline.importedFunctions = UInt32.ofNat (Import.count .func imports) ∧
    outline.importedTables = UInt32.ofNat (Import.count .table imports) ∧
    outline.importedMemories = UInt32.ofNat (Import.count .memory imports) ∧
    outline.importedGlobals = UInt32.ofNat (Import.count .global imports)
  | .functions => outline.ownFunctions = UInt32.ofNat (announced .functions sections)
  | .tables => outline.table =
    if 0 < announced .tables sections then some outline.importedTables else none
  | .memories => outline.memory =
    if 0 < announced .memories sections then some outline.importedMemories else none
  | .globals => ∃ globals, Module.entries? sections .globals Global.read = some globals ∧
    outline.globals = outline.ownGlobals globals
  | .tags | .exports | .start | .elements | .dataCount | .code | .data => True

theorem Tells.congr {kind : SectionKind} {others : List Section} (h : outline.Tells sections kind)
    (hsame : Section.ofKind kind others = Section.ofKind kind sections) :
    outline.Tells others kind := by
  cases kind <;> simp only [Tells] at h ⊢ <;>
    simpa only [Module.entries?_congr hsame, announced_congr hsame] using h

/-- The outline of sections tells of each kind what decoding tells. -/
structure Follows (outline : Outline) (sections : List Section) : Prop where
  sectionIds : outline.sectionIds = sections.map (·.id)
  tells : ∀ kind, outline.Tells sections kind

theorem follows_nil : Follows {} [] where
  sectionIds := rfl
  tells kind := by
    cases kind with
    | types => exact ⟨[], rfl, rfl⟩
    | imports => exact ⟨[], rfl, rfl, rfl, rfl, rfl⟩
    | globals => exact ⟨[], rfl, rfl⟩
    | functions | tables | memories => rfl
    | tags | exports | start | elements | dataCount | code | data => trivial

theorem contentsOf_eq_ok {α : Type} {contents : Reader α} {value : α}
    (h : contentsOf s contents = .ok value) : contents.whole s.contents = some value := by
  unfold contentsOf at h
  split at h
  · next hwhole => cases h; exact hwhole
  · cases h

theorem typeCount_of_addTypes {groups : List (List SubType)}
    (h : groups.foldlM (fun outline group => outline.addTypes group.length) outline = .ok result) :
    ∃ count, result = { outline with typeCount := count } ∧
      count.toNat = outline.typeCount.toNat + groups.flatten.length := by
  induction groups generalizing outline with
  | nil => cases h; exact ⟨_, rfl, rfl⟩
  | cons group groups ih =>
    rw [List.foldlM_cons] at h
    obtain ⟨next, hnext, h⟩ := Except.bind_eq_ok h
    unfold addTypes at hnext
    split at hnext
    · next hlt =>
      cases hnext
      obtain ⟨count, rfl, hcount⟩ := ih h
      have hgroup : group.length < 2 ^ 32 := Nat.lt_of_le_of_lt (Nat.le_add_left _ _) hlt
      refine ⟨count, rfl, ?_⟩
      rw [hcount, List.flatten_cons, List.length_append, UInt32.toNat_add, UInt32.toNat_ofNat',
        Nat.mod_eq_of_lt hgroup, Nat.mod_eq_of_lt hlt]
      omega
    · cases hnext

theorem foldl_addImport (imports : List Import) (outline : Outline) :
    imports.foldl addImport outline = { outline with
      importedFunctions := outline.importedFunctions + UInt32.ofNat (Import.count .func imports)
      importedTables := outline.importedTables + UInt32.ofNat (Import.count .table imports)
      importedMemories := outline.importedMemories + UInt32.ofNat (Import.count .memory imports)
      importedGlobals :=
        outline.importedGlobals + UInt32.ofNat (Import.count .global imports) } := by
  induction imports generalizing outline with
  | nil => simp [Import.count]
  | cons item imports ih =>
    rw [List.foldl_cons, ih]
    cases hkind : item.type.kind <;> simp [addImport, hkind, Import.count, UInt32.add_one_add_ofNat]

/-! ### Sections in any order -/

theorem addSection_of_kind {kind : SectionKind} (hid : s.id = kind.id) :
    outline.addSection s =
      addContents { outline with sectionIds := outline.sectionIds ++ [s.id] } s kind := by
  rw [addSection, Section.kind?_eq_some_iff.2 hid]

/-- A section without a kind is checked alone, so what takes it in once takes it in always. -/
theorem addSection_of_unknown (hid : ∀ kind : SectionKind, s.id ≠ kind.id)
    (h : outline.addSection s = .ok result) (other : Outline) :
    other.addSection s = .ok { other with sectionIds := other.sectionIds ++ [s.id] } := by
  unfold addSection at h ⊢
  simp only [Section.kind?_eq_none_iff.2 hid] at h ⊢
  by_cases hcustom : s.id = Section.customId
  · rw [if_pos hcustom] at h ⊢
    obtain ⟨name, hname, -⟩ := Except.bind_eq_ok h
    rw [hname]
    rfl
  · rw [if_neg hcustom]
    rfl

theorem eq_of_addSection_unknown (hid : ∀ kind : SectionKind, s.id ≠ kind.id)
    (h : outline.addSection s = .ok result) :
    result = { outline with sectionIds := outline.sectionIds ++ [s.id] } :=
  Except.ok.inj (h.symm.trans (addSection_of_unknown hid h outline))

/-- What the next section may do to the counts of an outline. -/
structure Advances (before : Outline) (s : Section) (after : Outline) : Prop where
  sectionIds : after.sectionIds = before.sectionIds ++ [s.id]
  le_typeCount : before.typeCount.toNat ≤ after.typeCount.toNat
  typeCount_le : after.typeCount.toNat ≤ before.typeCount.toNat + s.contents.length
  ownFunctions : s.id ≠ SectionKind.functions.id → after.ownFunctions = before.ownFunctions

theorem advances_of_eq (hids : result.sectionIds = outline.sectionIds ++ [s.id])
    (htypes : result.typeCount = outline.typeCount)
    (hfunctions : result.ownFunctions = outline.ownFunctions) : outline.Advances s result where
  sectionIds := hids
  le_typeCount := Nat.le_of_eq (congrArg UInt32.toNat htypes.symm)
  typeCount_le := by
    rw [htypes]
    exact Nat.le_add_right _ _
  ownFunctions _ := hfunctions

theorem advances_of_addSection (h : outline.addSection s = .ok result) :
    outline.Advances s result := by
  cases hkind : s.kind? with
  | none =>
    rw [eq_of_addSection_unknown (Section.kind?_eq_none_iff.1 hkind) h]
    exact advances_of_eq rfl rfl rfl
  | some kind =>
    have hid := Section.kind?_eq_some_iff.1 hkind
    rw [addSection_of_kind hid] at h
    cases kind with
    | types =>
      obtain ⟨groups, hgroups, h⟩ := Except.bind_eq_ok h
      obtain ⟨count, rfl, hcount⟩ := typeCount_of_addTypes h
      have := SubType.length_flatten_lt (contentsOf_eq_ok hgroups)
      exact ⟨rfl, by simp only at hcount ⊢; omega, by simp only at hcount ⊢; omega, fun _ => rfl⟩
    | imports =>
      obtain ⟨imports, -, h⟩ := Except.bind_eq_ok h
      rw [foldl_addImport] at h
      cases h
      exact advances_of_eq rfl rfl rfl
    | functions =>
      obtain ⟨count, -, h⟩ := Except.bind_eq_ok h
      cases h
      exact ⟨rfl, Nat.le_refl _, Nat.le_add_right _ _, fun hne => absurd hid hne⟩
    | tables | memories =>
      obtain ⟨count, -, h⟩ := Except.bind_eq_ok h
      split at h <;> cases h <;> exact advances_of_eq rfl rfl rfl
    | tags | globals | exports | start | elements | dataCount | code | data =>
      obtain ⟨_, -, h⟩ := Except.bind_eq_ok h
      cases h
      exact advances_of_eq rfl rfl rfl

/-- A section adds to what an outline tells of sections of its kind, and to nothing else. -/
structure Keeps (before : Outline) (s : Section) (after : Outline) : Prop where
  types : s.id ≠ SectionKind.types.id → after.typeCount = before.typeCount
  imports : s.id ≠ SectionKind.imports.id → after.importedFunctions = before.importedFunctions ∧
    after.importedGlobals = before.importedGlobals
  functions : s.id ≠ SectionKind.functions.id → after.ownFunctions = before.ownFunctions
  tables : s.id ≠ SectionKind.tables.id → after.table = before.table
  memories : s.id ≠ SectionKind.memories.id → after.memory = before.memory
  globals : s.id ≠ SectionKind.globals.id → after.globals = before.globals

theorem keeps_of_addSection (h : outline.addSection s = .ok result) : outline.Keeps s result := by
  have hcommon : outline.Keeps s { outline with sectionIds := outline.sectionIds ++ [s.id] } :=
    ⟨fun _ => rfl, fun _ => ⟨rfl, rfl⟩, fun _ => rfl, fun _ => rfl, fun _ => rfl, fun _ => rfl⟩
  cases hkind : s.kind? with
  | none =>
    rw [eq_of_addSection_unknown (Section.kind?_eq_none_iff.1 hkind) h]
    exact hcommon
  | some kind =>
    have hid := Section.kind?_eq_some_iff.1 hkind
    rw [addSection_of_kind hid] at h
    cases kind with
    | types =>
      obtain ⟨groups, -, h⟩ := Except.bind_eq_ok h
      obtain ⟨count, rfl, -⟩ := typeCount_of_addTypes h
      exact { hcommon with types := absurd hid }
    | imports =>
      obtain ⟨imports, -, h⟩ := Except.bind_eq_ok h
      rw [foldl_addImport] at h
      cases h
      exact { hcommon with imports := absurd hid }
    | functions =>
      obtain ⟨count, -, h⟩ := Except.bind_eq_ok h
      cases h
      exact { hcommon with functions := absurd hid }
    | tables =>
      obtain ⟨count, -, h⟩ := Except.bind_eq_ok h
      split at h <;> cases h <;> exact { hcommon with tables := absurd hid }
    | memories =>
      obtain ⟨count, -, h⟩ := Except.bind_eq_ok h
      split at h <;> cases h <;> exact { hcommon with memories := absurd hid }
    | globals =>
      obtain ⟨globals, -, h⟩ := Except.bind_eq_ok h
      cases h
      exact { hcommon with globals := absurd hid }
    | tags | exports | start | elements | dataCount | code | data =>
      obtain ⟨_, -, h⟩ := Except.bind_eq_ok h
      cases h
      exact hcommon

/-- The outline lists the ids of the sections as they come. -/
theorem sectionIds_of_foldlM (h : sections.foldlM addSection outline = .ok result) :
    result.sectionIds = outline.sectionIds ++ sections.map (·.id) := by
  induction sections generalizing outline with
  | nil =>
    cases h
    exact (List.append_nil _).symm
  | cons s sections ih =>
    rw [List.foldlM_cons] at h
    obtain ⟨next, hnext, h⟩ := Except.bind_eq_ok h
    rw [ih h, (advances_of_addSection hnext).sectionIds, List.append_assoc]
    rfl

/-- The types are counted up, by no more than the bytes of the sections. -/
theorem typeCount_of_foldlM (h : sections.foldlM addSection outline = .ok result) :
    outline.typeCount.toNat ≤ result.typeCount.toNat ∧
      result.typeCount.toNat ≤ outline.typeCount.toNat + Section.contentSize sections := by
  induction sections generalizing outline with
  | nil =>
    cases h
    exact ⟨Nat.le_refl _, Nat.le_add_right _ _⟩
  | cons s sections ih =>
    rw [List.foldlM_cons] at h
    obtain ⟨next, hnext, h⟩ := Except.bind_eq_ok h
    have hstep := advances_of_addSection hnext
    have hle := hstep.le_typeCount
    have hle' := hstep.typeCount_le
    have hrest := ih h
    rw [Section.contentSize_cons]
    omega

theorem sectionIds_of_ofSections (h : ofSections sections = .ok outline) :
    outline.sectionIds = sections.map (·.id) := sectionIds_of_foldlM h

theorem hasSection_iff (h : ofSections sections = .ok outline) (kind : SectionKind) :
    outline.hasSection kind = true ↔ ∃ s ∈ sections, s.id = kind.id := by
  simp [hasSection, sectionIds_of_ofSections h]

/-- Every section of an outlined file was taken in. -/
theorem addSection_of_mem (h : sections.foldlM addSection outline = .ok result)
    (hs : s ∈ sections) : ∃ before after, addSection before s = .ok after := by
  induction sections generalizing outline with
  | nil => cases hs
  | cons first sections ih =>
    rw [List.foldlM_cons] at h
    obtain ⟨next, hnext, h⟩ := Except.bind_eq_ok h
    rcases List.mem_cons.1 hs with rfl | hs
    · exact ⟨outline, next, hnext⟩
    · exact ih h hs

/-- Of the kinds that are not its own a section tells nothing. -/
theorem Follows.tells_other {kind other : SectionKind} (h : outline.Follows sections)
    (hordered : Section.Ordered (sections ++ [s])) (hid : s.id = kind.id)
    (hadd : addContents { outline with sectionIds := outline.sectionIds ++ [s.id] } s kind =
      .ok result) (hne : other ≠ kind) : result.Tells (sections ++ [s]) other := by
  have hsame (other : SectionKind) (hne : other ≠ kind) :
      Section.ofKind other (sections ++ [s]) = Section.ofKind other sections :=
    Section.ofKind_snoc_ne fun heq => hne (SectionKind.id_injective (heq.symm.trans hid))
  have hother : outline.Tells (sections ++ [s]) other := (h.tells other).congr (hsame other hne)
  have hnone (later : SectionKind) (hrank : kind.rank ≤ later.rank) :
      Section.ofKind later sections = [] := hordered.ofKind_eq_nil hid hrank
  cases kind with
  | types =>
    obtain ⟨groups, -, hadd⟩ := Except.bind_eq_ok hadd
    obtain ⟨count, rfl, -⟩ := typeCount_of_addTypes hadd
    cases other <;> first | exact hother | exact absurd rfl hne
  | imports =>
    obtain ⟨imports, -, hadd⟩ := Except.bind_eq_ok hadd
    rw [foldl_addImport] at hadd
    cases hadd
    -- What is numbered after the imports comes in later sections, of which there are none yet.
    cases other with
    | types => exact hother
    | imports => exact absurd rfl hne
    | functions => exact hother
    | tables =>
      have hzero := announced_of_nil (hnone .tables (by decide))
      simp only [Tells, announced_congr (hsame .tables (by decide)), hzero] at hother ⊢
      exact hother
    | memories =>
      have hzero := announced_of_nil (hnone .memories (by decide))
      simp only [Tells, announced_congr (hsame .memories (by decide)), hzero] at hother ⊢
      exact hother
    | globals =>
      obtain ⟨globals, hglobals, hown⟩ := hother
      refine ⟨globals, hglobals, ?_⟩
      rw [Module.entries?_congr (hsame .globals (by decide)),
        Module.entries?_of_nil (hnone .globals (by decide))] at hglobals
      cases hglobals
      exact hown
    | tags | exports | start | elements | dataCount | code | data => trivial
  | functions | globals =>
    obtain ⟨_, -, hadd⟩ := Except.bind_eq_ok hadd
    cases hadd
    cases other <;> first | exact hother | exact absurd rfl hne
  | tables | memories =>
    obtain ⟨count, -, hadd⟩ := Except.bind_eq_ok hadd
    split at hadd <;> cases hadd <;> cases other <;> first | exact hother | exact absurd rfl hne
  | tags | exports | start | elements | dataCount | code | data =>
    obtain ⟨_, -, hadd⟩ := Except.bind_eq_ok hadd
    cases hadd
    cases other <;> exact hother

/-- It is the first section of its own kind, so what it holds is all that is told of that. -/
theorem Follows.tells_own {kind : SectionKind} (h : outline.Follows sections)
    (hordered : Section.Ordered (sections ++ [s])) (hid : s.id = kind.id)
    (hadd : addContents { outline with sectionIds := outline.sectionIds ++ [s.id] } s kind =
      .ok result) : result.Tells (sections ++ [s]) kind := by
  have hnone : Section.ofKind kind sections = [] := hordered.ofKind_eq_nil hid (Nat.le_refl _)
  have hself : Section.ofKind kind (sections ++ [s]) = [s] := Section.ofKind_snoc_self hid hnone
  have hbefore := h.tells kind
  cases kind with
  | types =>
    obtain ⟨groups, hgroups, hadd⟩ := Except.bind_eq_ok hadd
    obtain ⟨count, rfl, hcount⟩ := typeCount_of_addTypes hadd
    obtain ⟨before, hbefore, htypes⟩ := hbefore
    rw [Module.entries?_of_nil hnone] at hbefore
    cases hbefore
    refine ⟨groups, ?_, by simp [hcount, htypes]⟩
    rw [Module.entries?_of_singleton hself, contentsOf_eq_ok hgroups]
  | imports =>
    obtain ⟨imports, himports, hadd⟩ := Except.bind_eq_ok hadd
    rw [foldl_addImport] at hadd
    cases hadd
    obtain ⟨before, hbefore, hfunctions, htables, hmemories, hglobals⟩ := hbefore
    rw [Module.entries?_of_nil hnone] at hbefore
    cases hbefore
    refine ⟨imports, ?_, by simp [hfunctions, Import.count], by simp [htables, Import.count],
      by simp [hmemories, Import.count], by simp [hglobals, Import.count]⟩
    rw [Module.entries?_of_singleton hself, contentsOf_eq_ok himports]
  | functions =>
    obtain ⟨count, hcount, hadd⟩ := Except.bind_eq_ok hadd
    cases hadd
    simp only [Tells, announced_of_singleton hself (contentsOf_eq_ok hcount)]
  | tables | memories =>
    obtain ⟨count, hcount, hadd⟩ := Except.bind_eq_ok hadd
    simp only [Tells, announced_of_nil hnone, Nat.lt_irrefl, if_false] at hbefore
    simp only [Tells, announced_of_singleton hself (contentsOf_eq_ok hcount)]
    split at hadd
    · next hpos =>
      cases hadd
      rw [if_pos hpos]
    · next hpos =>
      cases hadd
      rw [if_neg hpos]
      exact hbefore
  | globals =>
    obtain ⟨globals, hglobals, hadd⟩ := Except.bind_eq_ok hadd
    cases hadd
    obtain ⟨before, hbefore, hown⟩ := hbefore
    rw [Module.entries?_of_nil hnone] at hbefore
    cases hbefore
    refine ⟨globals, ?_, by simp [hown, ownGlobals]⟩
    rw [Module.entries?_of_singleton hself, contentsOf_eq_ok hglobals]
  | tags | exports | start | elements | dataCount | code | data => trivial

/-- A section of a known kind. -/
theorem Follows.addContents {kind : SectionKind} (h : outline.Follows sections)
    (hordered : Section.Ordered (sections ++ [s])) (hid : s.id = kind.id)
    (hadd : addContents { outline with sectionIds := outline.sectionIds ++ [s.id] } s kind =
      .ok result) : result.Follows (sections ++ [s]) where
  sectionIds := by
    have hadvances := advances_of_addSection ((addSection_of_kind hid).trans hadd)
    rw [hadvances.sectionIds, h.sectionIds, List.map_append]
    rfl
  tells other := by
    by_cases hne : other = kind
    · subst hne
      exact h.tells_own hordered hid hadd
    · exact h.tells_other hordered hid hadd hne

/-- What the outline of the sections so far tells, the outline with the next section tells. -/
theorem Follows.addSection (h : outline.Follows sections)
    (hordered : Section.Ordered (sections ++ [s])) (hadd : outline.addSection s = .ok result) :
    result.Follows (sections ++ [s]) := by
  cases hkind : s.kind? with
  | some kind =>
    have hid := Section.kind?_eq_some_iff.1 hkind
    rw [addSection_of_kind hid] at hadd
    exact h.addContents hordered hid hadd
  | none =>
    have hid := Section.kind?_eq_none_iff.1 hkind
    have hresult := eq_of_addSection_unknown hid hadd
    subst hresult
    refine ⟨?_, fun kind => ?_⟩
    · rw [h.sectionIds, List.map_append]
      rfl
    · have hsame : Section.ofKind kind (sections ++ [s]) = Section.ofKind kind sections :=
        Section.ofKind_snoc_ne (hid kind)
      have htells := (h.tells kind).congr hsame
      cases kind <;> exact htells

/-- The outline of a module whose sections stand in order tells what decoding the module tells. -/
theorem follows_of_ofSections (hordered : Section.Ordered sections)
    (h : ofSections sections = .ok outline) : outline.Follows sections := by
  have hrun (done rest : List Section) (before : Outline) (hall : done ++ rest = sections)
      (hbefore : before.Follows done) (h : rest.foldlM Outline.addSection before = .ok outline) :
      outline.Follows sections := by
    induction rest generalizing done before with
    | nil =>
      cases h
      rw [List.append_nil] at hall
      exact hall ▸ hbefore
    | cons s rest ih =>
      rw [List.foldlM_cons] at h
      obtain ⟨next, hnext, h⟩ := Except.bind_eq_ok h
      have hall' : done ++ [s] ++ rest = sections := by rw [List.append_assoc]; exact hall
      have hordered' : Section.Ordered (done ++ [s] ++ rest) := hall'.symm ▸ hordered
      exact ih (done ++ [s]) next hall' (hbefore.addSection hordered'.left hnext) h
  exact hrun [] sections {} rfl follows_nil h

end Outline

end WasmSnapshot
