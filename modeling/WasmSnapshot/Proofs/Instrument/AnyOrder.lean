import Mathlib.Data.List.Induction
import WasmSnapshot.Instrument.Basic
import WasmSnapshot.Proofs.Instrument.Outline

/-! What an outline tells of a file whose sections stand in any order, some of them more than once.
Types and imports are those of all sections of their kind, and so are the globals, each under the
index that it has behind the imports before it; of the sections of functions only the last one counts.
All of it is proved by induction on the sections from the last one back. -/

namespace WasmSnapshot

/-- How many entries a section announces. -/
def Section.count? (s : Section) : Option Nat := Outline.readOpaqueEntries.whole s.contents

theorem Section.count?_of_size {s : Section} {count : Nat} {old : Bytes}
    (h : Leb128.size s.contents = some (count, old)) : s.count? = some count := by
  refine Reader.whole_of_eq_some ?_
  rw [Outline.readOpaqueEntries, Reader.bind_of_eq_some h]
  rfl

/-- A global that one of the sections defines. Its index goes on from the globals that are imported
before the section. -/
def Section.Defines (sections : List Section) (own : OwnGlobal) : Prop :=
  ∃ before s after imports globals position global,
    sections = before ++ s :: after ∧ s.id = SectionKind.globals.id ∧
    Module.entries? before .imports Import.read = some imports ∧
    (Reader.counted Global.read).whole s.contents = some globals ∧
    globals[position]? = some global ∧
    own = ⟨UInt32.ofNat (Import.count .global imports + position), global.type⟩

/-- A global is defined by a section before the last one, or by the last. -/
theorem Section.defines_concat {sections : List Section} {s : Section} {own : OwnGlobal} :
    Defines (sections ++ [s]) own ↔ Defines sections own ∨
      ∃ imports globals position global, s.id = SectionKind.globals.id ∧
        Module.entries? sections .imports Import.read = some imports ∧
        (Reader.counted Global.read).whole s.contents = some globals ∧
        globals[position]? = some global ∧
        own = ⟨UInt32.ofNat (Import.count .global imports + position), global.type⟩ := by
  constructor
  · rintro ⟨before, t, after, imports, globals, position, global, hsections, hdefines⟩
    rcases List.eq_nil_or_concat after with rfl | ⟨others, last, rfl⟩
    · obtain ⟨rfl, ht⟩ := List.append_inj' hsections rfl
      cases ht
      exact .inr ⟨imports, globals, position, global, hdefines⟩
    · have hsections : sections ++ [s] = (before ++ t :: others) ++ [last] := by
        simpa using hsections
      obtain ⟨rfl, -⟩ := List.append_inj' hsections rfl
      exact .inl ⟨before, t, others, imports, globals, position, global, rfl, hdefines⟩
  · rintro (⟨before, t, after, imports, globals, position, global, rfl, hdefines⟩ |
      ⟨imports, globals, position, global, hdefines⟩)
    · exact ⟨before, t, after ++ [s], imports, globals, position, global, by simp, hdefines⟩
    · exact ⟨sections, s, [], imports, globals, position, global, rfl, hdefines⟩

theorem Module.entries?_concat {α : Type} {kind : SectionKind} {item : Reader α} {s : Section}
    {sections : List Section} {values more : List α} (hid : s.id = kind.id)
    (hvalues : entries? sections kind item = some values)
    (hmore : (Reader.counted item).whole s.contents = some more) :
    entries? (sections ++ [s]) kind item = some (values ++ more) := by
  simp only [entries?, Option.bind_eq_bind, Option.bind_eq_some_iff] at hvalues ⊢
  obtain ⟨parts, hparts, hvalues⟩ := hvalues
  cases hvalues
  refine ⟨parts ++ [more], ?_, ?_⟩
  · simp [List.mapM_append, hid, hparts, hmore]
  · simp

namespace Outline

variable {outline before after result : Outline} {s : Section} {sections : List Section}

theorem ofSections_concat (h : ofSections (sections ++ [s]) = .ok outline) :
    ∃ before, ofSections sections = .ok before ∧ before.addSection s = .ok outline := by
  rw [ofSections, List.foldlM_append] at h
  obtain ⟨before, hbefore, h⟩ := Except.bind_eq_ok h
  rw [List.foldlM_cons] at h
  obtain ⟨after, hafter, h⟩ := Except.bind_eq_ok h
  cases h
  exact ⟨before, hbefore, hafter⟩

/-- A section that can receive entries opens with a count. -/
theorem size_of_ofSections {kind : SectionKind} (h : ofSections sections = .ok outline)
    (hs : s ∈ sections) (hid : s.id = kind.id) (hkind : kind ∈ Additions.targets) :
    ∃ count old, Leb128.size s.contents = some (count, old) := by
  obtain ⟨before, after, hadd⟩ := addSection_of_mem h hs
  rw [addSection_of_kind hid] at hadd
  have hcounted {α : Type} {item : Reader α} {values : List α}
      (hvalues : contentsOf s (Reader.counted item) = .ok values) :
      ∃ count old, Leb128.size s.contents = some (count, old) := by
    obtain ⟨old, hsize, -⟩ :=
      Reader.counted_eq_some (Reader.whole_eq_some (contentsOf_eq_ok hvalues))
    exact ⟨_, old, hsize⟩
  have hopaque {count : Nat} (hcount : contentsOf s readOpaqueEntries = .ok count) :
      ∃ count old, Leb128.size s.contents = some (count, old) := by
    obtain ⟨count, old, hsize, -⟩ :=
      Reader.bind_eq_some (Reader.whole_eq_some (contentsOf_eq_ok hcount))
    exact ⟨count, old, hsize⟩
  cases kind with
  | types =>
    obtain ⟨groups, hgroups, -⟩ := Except.bind_eq_ok hadd
    exact hcounted hgroups
  | functions | exports =>
    obtain ⟨count, hcount, -⟩ := Except.bind_eq_ok hadd
    exact hopaque hcount
  | code =>
    obtain ⟨bodies, hbodies, -⟩ := Except.bind_eq_ok hadd
    exact hcounted hbodies
  | imports | tables | memories | tags | globals | start | elements | dataCount | data =>
    exact absurd hkind (by decide)

/-- The last section of functions tells how many there are. -/
theorem ownFunctions_eq (h : ofSections sections = .ok outline) : outline.ownFunctions.toNat =
    ((Section.ofKind .functions sections).getLast?.bind Section.count?).getD 0 := by
  induction sections using List.reverseRecOn generalizing outline with
  | nil =>
    cases h
    rfl
  | append_singleton sections s ih =>
    obtain ⟨before, hbefore, hadd⟩ := ofSections_concat h
    by_cases hid : s.id = SectionKind.functions.id
    · rw [addSection_of_kind hid] at hadd
      obtain ⟨count, hcount, hadd⟩ := Except.bind_eq_ok hadd
      have hcount : s.count? = some count := contentsOf_eq_ok hcount
      cases hadd
      rw [Section.ofKind_append, Section.ofKind_cons_self hid, List.getLast?_append]
      simpa [hcount, Section.ofKind] using
        UInt32.toNat_ofNat_of_lt' (lt_of_readOpaqueEntries hcount)
    · rw [(keeps_of_addSection hadd).functions hid, ih hbefore, Section.ofKind_snoc_ne hid]

theorem ownFunctions_eq_zero_iff (h : ofSections sections = .ok outline) :
    outline.ownFunctions = 0 ↔
      ∀ s, (Section.ofKind .functions sections).getLast? = some s → s.count? = some 0 := by
  rw [← UInt32.toNat_inj, ownFunctions_eq h]
  cases hlast : (Section.ofKind .functions sections).getLast? with
  | none => simp
  | some s =>
    obtain ⟨hs, hid⟩ := List.mem_filter.1 (List.mem_of_getLast? hlast)
    obtain ⟨count, old, hsize⟩ := size_of_ofSections h hs (of_decide_eq_true hid) (by decide)
    simp [Section.count?_of_size hsize]

/-- An item that the sections of a kind give is missing if they all announce nothing. -/
theorem first_eq_none_iff {kind : SectionKind} {first : Outline → Option UInt32}
    (hstart : first {} = none)
    (hkeep : ∀ {before s after}, addSection before s = .ok after → s.id ≠ kind.id →
      first after = first before)
    (htake : ∀ {before s after}, addSection before s = .ok after → s.id = kind.id →
      ∃ count, s.count? = some count ∧ (first after = none ↔ count = 0 ∧ first before = none))
    (h : ofSections sections = .ok outline) :
    first outline = none ↔ ∀ s ∈ Section.ofKind kind sections, s.count? = some 0 := by
  induction sections using List.reverseRecOn generalizing outline with
  | nil =>
    cases h
    simp [Section.ofKind, hstart]
  | append_singleton sections s ih =>
    obtain ⟨before, hbefore, hadd⟩ := ofSections_concat h
    by_cases hid : s.id = kind.id
    · obtain ⟨count, hcount, hfirst⟩ := htake hadd hid
      have hsplit : Section.ofKind kind (sections ++ [s]) = Section.ofKind kind sections ++ [s] := by
        rw [Section.ofKind_append, Section.ofKind_cons_self hid]
        rfl
      rw [hsplit, List.forall_mem_append, List.forall_mem_singleton, hcount, hfirst, ih hbefore,
        Option.some.injEq, and_comm]
    · rw [hkeep hadd hid, ih hbefore, Section.ofKind_snoc_ne hid]

theorem memory_eq_none_iff (h : ofSections sections = .ok outline) :
    outline.memory = none ↔ ∀ s ∈ Section.ofKind .memories sections, s.count? = some 0 := by
  apply first_eq_none_iff rfl (fun hadd => (keeps_of_addSection hadd).memories) _ h
  intro before s after hadd hid
  rw [addSection_of_kind hid] at hadd
  obtain ⟨count, hcount, hadd⟩ := Except.bind_eq_ok hadd
  refine ⟨count, contentsOf_eq_ok hcount, ?_⟩
  split at hadd <;> cases hadd <;> simp <;> omega

theorem table_eq_none_iff (h : ofSections sections = .ok outline) :
    outline.table = none ↔ ∀ s ∈ Section.ofKind .tables sections, s.count? = some 0 := by
  apply first_eq_none_iff rfl (fun hadd => (keeps_of_addSection hadd).tables) _ h
  intro before s after hadd hid
  rw [addSection_of_kind hid] at hadd
  obtain ⟨count, hcount, hadd⟩ := Except.bind_eq_ok hadd
  refine ⟨count, contentsOf_eq_ok hcount, ?_⟩
  split at hadd <;> cases hadd <;> simp <;> omega

theorem globals_of_addSection (hid : s.id = SectionKind.globals.id)
    (h : outline.addSection s = .ok result) : ∃ globals,
      (Reader.counted Global.read).whole s.contents = some globals ∧
      result.globals = outline.globals ++ outline.ownGlobals globals := by
  rw [addSection_of_kind hid] at h
  obtain ⟨globals, hglobals, h⟩ := Except.bind_eq_ok h
  cases h
  exact ⟨globals, contentsOf_eq_ok hglobals, rfl⟩

/-- Imports are counted over all their sections. -/
theorem exists_imports (h : ofSections sections = .ok outline) :
    ∃ imports, Module.entries? sections .imports Import.read = some imports ∧
      outline.importedFunctions = UInt32.ofNat (Import.count .func imports) ∧
      outline.importedGlobals = UInt32.ofNat (Import.count .global imports) := by
  induction sections using List.reverseRecOn generalizing outline with
  | nil =>
    cases h
    exact ⟨[], rfl, rfl, rfl⟩
  | append_singleton sections s ih =>
    obtain ⟨before, hbefore, hadd⟩ := ofSections_concat h
    obtain ⟨imports, himports, hfunctions, hglobals⟩ := ih hbefore
    by_cases hid : s.id = SectionKind.imports.id
    · rw [addSection_of_kind hid] at hadd
      obtain ⟨more, hmore, hadd⟩ := Except.bind_eq_ok hadd
      rw [foldl_addImport] at hadd
      cases hadd
      refine ⟨imports ++ more, Module.entries?_concat hid himports (contentsOf_eq_ok hmore), ?_, ?_⟩
      · simp only [hfunctions, Import.count, List.countP_append, UInt32.ofNat_add]
      · simp only [hglobals, Import.count, List.countP_append, UInt32.ofNat_add]
    · obtain ⟨hkept, hkept'⟩ := (keeps_of_addSection hadd).imports hid
      refine ⟨imports, ?_, by rw [hkept, hfunctions], by rw [hkept', hglobals]⟩
      rw [Module.entries?_congr (Section.ofKind_snoc_ne hid), himports]

/-- Types are counted over all their sections, those of a group one by one. -/
theorem exists_types (h : ofSections sections = .ok outline) :
    ∃ groups, Module.entries? sections .types SubType.readGroup = some groups ∧
      outline.typeCount.toNat = groups.flatten.length := by
  induction sections using List.reverseRecOn generalizing outline with
  | nil =>
    cases h
    exact ⟨[], rfl, rfl⟩
  | append_singleton sections s ih =>
    obtain ⟨before, hbefore, hadd⟩ := ofSections_concat h
    obtain ⟨groups, hgroups, hcount⟩ := ih hbefore
    by_cases hid : s.id = SectionKind.types.id
    · rw [addSection_of_kind hid] at hadd
      obtain ⟨more, hmore, hadd⟩ := Except.bind_eq_ok hadd
      obtain ⟨count, rfl, hadded⟩ := typeCount_of_addTypes hadd
      refine ⟨groups ++ more, Module.entries?_concat hid hgroups (contentsOf_eq_ok hmore), ?_⟩
      simp only [hadded, hcount, List.flatten_append, List.length_append]
    · refine ⟨groups, ?_, by rw [(keeps_of_addSection hadd).types hid, hcount]⟩
      rw [Module.entries?_congr (Section.ofKind_snoc_ne hid), hgroups]

/-- The globals are those of all their sections, in order. -/
theorem exists_globals (h : ofSections sections = .ok outline) :
    ∃ globals, Module.entries? sections .globals Global.read = some globals ∧
      outline.globals.map (·.type) = globals.map (·.type) := by
  induction sections using List.reverseRecOn generalizing outline with
  | nil =>
    cases h
    exact ⟨[], rfl, rfl⟩
  | append_singleton sections s ih =>
    obtain ⟨before, hbefore, hadd⟩ := ofSections_concat h
    obtain ⟨globals, hglobals, htypes⟩ := ih hbefore
    by_cases hid : s.id = SectionKind.globals.id
    · obtain ⟨more, hmore, hadded⟩ := globals_of_addSection hid hadd
      have hown : (before.ownGlobals more).map (·.type) = more.map (·.type) := by
        calc (before.ownGlobals more).map (·.type)
          _ = (more.zipIdx.map Prod.fst).map (·.type) := by
            rw [ownGlobals, List.map_map, List.map_map]
            rfl
          _ = more.map (·.type) := by rw [List.zipIdx_map_fst]
      refine ⟨globals ++ more, Module.entries?_concat hid hglobals hmore, ?_⟩
      rw [hadded, List.map_append, List.map_append, htypes, hown]
    · refine ⟨globals, ?_, by rw [(keeps_of_addSection hadd).globals hid, htypes]⟩
      rw [Module.entries?_congr (Section.ofKind_snoc_ne hid), hglobals]

theorem mem_ownGlobals {globals : List Global} {own : OwnGlobal} :
    own ∈ outline.ownGlobals globals ↔ ∃ position global, globals[position]? = some global ∧
      own = ⟨outline.importedGlobals + UInt32.ofNat position, global.type⟩ := by
  simp only [ownGlobals, List.mem_map, Prod.exists, List.mem_zipIdx_iff_getElem?]
  constructor
  · rintro ⟨global, position, hget, rfl⟩
    exact ⟨position, global, hget, rfl⟩
  · rintro ⟨position, global, hget, rfl⟩
    exact ⟨global, position, hget, rfl⟩

/-- The outline lists just the globals that the sections define. -/
theorem mem_globals_iff (h : ofSections sections = .ok outline) (own : OwnGlobal) :
    own ∈ outline.globals ↔ Section.Defines sections own := by
  induction sections using List.reverseRecOn generalizing outline with
  | nil =>
    cases h
    simp [Section.Defines]
  | append_singleton sections s ih =>
    obtain ⟨before, hbefore, hadd⟩ := ofSections_concat h
    obtain ⟨imports, himports, -, hcount⟩ := exists_imports hbefore
    by_cases hid : s.id = SectionKind.globals.id
    · obtain ⟨globals, hwhole, hglobals⟩ := globals_of_addSection hid hadd
      rw [hglobals, List.mem_append, ih hbefore, Section.defines_concat, mem_ownGlobals, hcount]
      simp [hid, himports, hwhole, UInt32.ofNat_add]
    · rw [(keeps_of_addSection hadd).globals hid, ih hbefore, Section.defines_concat]
      simp [hid]

end Outline

end WasmSnapshot
