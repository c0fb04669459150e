import WasmSnapshot.Proofs.Binary.File
import WasmSnapshot.Proofs.Instrument.Grown
import WasmSnapshot.Proofs.Instrument.Names

/-! Files that instrumenting leaves as they are. Nothing is added to a file in which there is nothing
to be made accessible and no section of types; its sections are written back, and the bytes are the
same if the file was written in this way before. Where something is added, the file always changes:
a section is new, or counts more entries than before. -/

namespace WasmSnapshot

/-- Whether a global is to get accessors. -/
def Selection.exposes (selection : Selection) (own : OwnGlobal) : Bool :=
  own.type.isMutable && selection.selectsGlobal own.index &&
    (IntType.ofValueType? own.type.value).isSome

/-- Nothing is to be added to a file with these sections. -/
structure Selection.Idle (selection : Selection) (sections : List Section) : Prop where
  types : Section.ofKind .types sections = []
  globals : ∀ own, Section.Defines sections own → selection.exposes own = false
  functions : ∀ s, (Section.ofKind .functions sections).getLast? = some s → s.count? = some 0
  memory : selection.memory = true → ∀ s ∈ Section.ofKind .memories sections, s.count? = some 0
  table : selection.table = true → ∀ s ∈ Section.ofKind .tables sections, s.count? = some 0

/-- The same of an outline. -/
structure Outline.Idle (selection : Selection) (outline : Outline) : Prop where
  types : outline.hasSection .types = false
  globals : ∀ own ∈ outline.globals, selection.exposes own = false
  functions : outline.ownFunctions = 0
  memory : selection.memory = true → outline.memory = none
  table : selection.table = true → outline.table = none

theorem Outline.idle_iff {outline : Outline} {sections : List Section}
    (h : ofSections sections = .ok outline) (selection : Selection) :
    outline.Idle selection ↔ selection.Idle sections := by
  have htypes : outline.hasSection .types = false ↔ Section.ofKind .types sections = [] := by
    rw [← Bool.not_eq_true, hasSection_iff h, Section.ofKind, List.filter_eq_nil_iff]
    simp
  have hglobals : (∀ own ∈ outline.globals, selection.exposes own = false) ↔
      ∀ own, Section.Defines sections own → selection.exposes own = false := by
    simp only [mem_globals_iff h]
  constructor
  · rintro ⟨types, globals, functions, memory, table⟩
    exact {
      types := htypes.1 types
      globals := hglobals.1 globals
      functions := (ownFunctions_eq_zero_iff h).1 functions
      memory := fun hselected => (memory_eq_none_iff h).1 (memory hselected)
      table := fun hselected => (table_eq_none_iff h).1 (table hselected) }
  · rintro ⟨types, globals, functions, memory, table⟩
    exact {
      types := htypes.2 types
      globals := hglobals.2 globals
      functions := (ownFunctions_eq_zero_iff h).2 functions
      memory := fun hselected => (memory_eq_none_iff h).2 (memory hselected)
      table := fun hselected => (table_eq_none_iff h).2 (table hselected) }

/-! ### Nothing to add -/

namespace Additions

variable {selection : Selection} {symbol : String} {outline : Outline} {additions : Additions}

theorem exposedGlobals_eq_nil_iff : exposedGlobals selection outline = [] ↔
    ∀ own ∈ outline.globals, selection.exposes own = false := by
  rw [exposedGlobals, List.filterMap_eq_nil_iff]
  refine forall₂_congr fun own _ => ?_
  cases hselected : own.type.isMutable && selection.selectsGlobal own.index <;>
    simp [Selection.exposes, hselected]

theorem itemExports_eq_nil_iff : itemExports selection symbol outline = [] ↔
    (selection.memory = true → outline.memory = none) ∧
    (selection.table = true → outline.table = none) ∧ outline.ownFunctions = 0 := by
  have hfunctions : ownFunctions outline = [] ↔ outline.ownFunctions = 0 := by
    rw [ownFunctions, List.map_eq_nil_iff, List.range_eq_nil, ← UInt32.toNat_inj]
    rfl
  simp [itemExports, hfunctions]

/-- An outline calls for no additions just if it is idle. -/
theorem Listed.idle_iff (h : Listed selection symbol outline additions) :
    outline.Idle selection ↔ ∀ kind, additions.size kind = 0 := by
  have htypes := h.size_signatures
  have hexports : additions.exports.size = (itemExports selection symbol outline).length +
      (accessorFunctions selection outline).length := by
    rw [← Array.length_toList, h.exports, List.length_append, functionExports, List.length_map,
      List.length_zipIdx]
  constructor
  · intro hidle
    have hexposed := exposedGlobals_eq_nil_iff.2 hidle.globals
    have hnone : accessorFunctions selection outline = [] := by
      rw [accessorFunctions, hexposed, List.flatMap_nil]
    have hitems : itemExports selection symbol outline = [] :=
      itemExports_eq_nil_iff.2 ⟨hidle.memory, hidle.table, hidle.functions⟩
    intro kind
    cases kind with
    | types =>
      rw [size, htypes, hexposed, hidle.types]
      rfl
    | functions =>
      rw [size, ← Array.length_toList, h.functions, hnone]
      rfl
    | exports =>
      rw [size, hexports, hitems, hnone]
      rfl
    | code =>
      rw [size, ← Array.length_toList, h.code, hnone]
      rfl
    | imports | tables | memories | tags | globals | start | elements | dataCount | data => rfl
  · intro hsize
    have hsigned : additions.signatures.size = 0 := hsize .types
    have hexported : additions.exports.size = 0 := hsize .exports
    have hitems : itemExports selection symbol outline = [] := by
      rw [← List.length_eq_zero_iff]
      omega
    obtain ⟨hmemory, htable, hfunctions⟩ := itemExports_eq_nil_iff.1 hitems
    have hunsigned : outline.hasSection .types = false ∧ exposedGlobals selection outline = [] := by
      rw [hsigned] at htypes
      simpa using htypes
    exact {
      types := hunsigned.1
      globals := exposedGlobals_eq_nil_iff.1 hunsigned.2
      functions := hfunctions
      memory := hmemory
      table := htable }

/-- Nothing waits just if the numbers of entries, as they are counted, are all zero. -/
theorem pending_eq_nil_iff_mod :
    additions.pending = [] ↔ ∀ kind ∈ targets, additions.size kind % 2 ^ 32 = 0 := by
  simp only [pending, List.filter_map, List.map_eq_nil_iff, List.filter_eq_nil_iff,
    Function.comp_apply, Bool.not_eq_true', Bool.not_eq_false, Entries.isEmpty, decide_eq_true_eq,
    ← UInt32.toNat_inj, toNat_count_entries]
  rfl

theorem pending_eq_nil_iff (h : ∀ kind, additions.size kind < 2 ^ 32) :
    additions.pending = [] ↔ ∀ kind, additions.size kind = 0 := by
  rw [pending_eq_nil_iff_mod]
  constructor
  · intro hzero kind
    by_cases hkind : kind ∈ targets
    · rw [← Nat.mod_eq_of_lt (h kind)]
      exact hzero kind hkind
    · cases kind <;> first | rfl | exact absurd (by decide) hkind
  · intro hzero kind _
    rw [hzero kind, Nat.zero_mod]

theorem ofOutline_of_idle (hidle : outline.Idle selection)
    (hlt : outline.importedFunctions.toNat + outline.ownFunctions.toNat < UInt32.size)
    (symbol : String) : ∃ additions, ofOutline selection symbol outline = .ok additions := by
  have hnone : accessorFunctions selection outline = [] := by
    rw [accessorFunctions, exposedGlobals_eq_nil_iff.2 hidle.globals, List.flatMap_nil]
  exact ⟨ofItems selection symbol outline, by rw [ofOutline, if_pos hlt, hnone]; rfl⟩

end Additions

theorem Pending.splice_nil {present : SectionKind → Bool} {sections : List Section} :
    splice present [] sections = .ok sections := by
  induction sections with
  | nil => rfl
  | cons s sections ih =>
    rw [splice]
    cases s.kind? <;> simp [ih, takeFor, newSections, bind, Except.bind, pure, Except.pure]

namespace Instrumented.Built

variable {selection : Selection} {symbol : String} {bytes : Bytes} {sections spliced : List Section}
  {outline : Outline} {additions : Additions} {out : Instrumented}

/-- Where anything is added, the sections are no longer the same: one is new, or the first one of
some kind counts more entries. -/
theorem size_eq_zero_of_same
    (h : Built selection symbol bytes sections outline additions sections out)
    (hexports : out.exports.length < 2 ^ 32) :
    ∀ kind, additions.size kind = 0 := by
  intro kind
  apply Decidable.byContradiction
  intro hne
  have hpos : 0 < additions.size kind := Nat.pos_of_ne_zero hne
  have hkind : kind ∈ Additions.targets := by
    cases kind <;> first | decide | exact absurd rfl hne
  have hids : ∀ s ∈ sections, s.id ∈ sections.map (·.id) := fun s hs => List.mem_map_of_mem hs
  have hkept : Section.kept (sections.map (·.id)) sections = sections := by
    rw [Section.kept, List.filter_eq_self]
    intro s hs
    exact List.contains_iff_mem.2 (hids s hs)
  have hcreated : Section.created (sections.map (·.id)) sections = [] := by
    rw [Section.created, List.filter_eq_nil_iff]
    intro s hs
    simpa using hids s hs
  by_cases hpresent : kind.id ∈ sections.map (·.id)
  · obtain ⟨t, ht, htid⟩ := List.mem_map.1 hpresent
    obtain ⟨i, hfirst⟩ : ∃ i, Section.first? kind sections = some i := by
      rw [← Option.isSome_iff_exists, Section.first?, List.findIdx?_isSome, List.any_eq_true]
      exact ⟨t, ht, decide_eq_true htid⟩
    obtain ⟨s, count, old, hs, hold, hlt, hgrown⟩ := h.receives hexports hkind hpos hfirst
    rw [hkept, hs, Option.some.injEq] at hgrown
    have hcontents : s.contents = additions.countedIn kind count old := congrArg (·.contents) hgrown
    rw [hcontents, Additions.countedIn, List.append_assoc, Leb128.size_encode hlt] at hold
    have hcount : count + additions.size kind = count :=
      (Prod.ext_iff.1 (Option.some.inj hold)).1
    omega
  · have hperm := h.created_perm hexports
    rw [hcreated] at hperm
    have hnone := List.filter_eq_nil_iff.1 (List.map_eq_nil_iff.1 hperm.nil_eq.symm) kind hkind
    apply hnone
    simpa [hpos] using hpresent

end Instrumented.Built

section

variable {selection : Selection} {symbol : String} {bytes : Bytes} {sections : List Section}
  {outline : Outline} {out : Instrumented}

/-- The sections of an idle file are written back, whatever the symbol. -/
theorem instrument_of_idle (hread : Section.readModule bytes = .ok sections)
    (houtline : Outline.ofSections sections = .ok outline) (hidle : outline.Idle selection)
    (hlt : outline.importedFunctions.toNat + outline.ownFunctions.toNat < UInt32.size)
    (symbol : String) : instrument selection symbol bytes = .ok ⟨Section.encodeModule sections, []⟩ := by
  obtain ⟨additions, hadditions⟩ := Additions.ofOutline_of_idle hidle hlt symbol
  have hlisted := Additions.listed_of_ofOutline hadditions
  have hsize := hlisted.idle_iff.1 hidle
  have hfits : sections.all Section.fits = true := by
    rw [List.all_eq_true]
    intro s hs
    exact decide_eq_true (Section.length_lt_of_readModule hread s hs)
  have hexports : additions.exports.toList = [] := by
    rw [← List.length_eq_zero_iff]
    exact hsize .exports
  have hpending : additions.pending = [] :=
    (Additions.pending_eq_nil_iff fun kind => by rw [hsize kind]; decide).2 hsize
  simp only [instrument, hread, houtline, hadditions, hpending, Pending.splice_nil, hfits,
    hexports, if_true, bind, Except.bind, pure, Except.pure]

end

/-- What is to be added to a file. -/
def Additions.ofBytes (selection : Selection) (symbol : String) (bytes : Bytes) :
    Except InstrumentError Additions := do
  ofOutline selection symbol (← Outline.ofBytes bytes)

/-- A file stays as it is just if it is written in the shortest way and nothing is to be added, which
can be told from its sections. If nothing is to be added, the output has the sections of the file,
and stays as it is when it is instrumented again. -/
theorem instrument_unchanged_iff {selection : Selection} {symbol : String} {bytes : Bytes}
    {out : Instrumented} (h : instrument selection symbol bytes = .ok out)
    (hexports : out.exports.length < 2 ^ 32) :
    ∃ additions, Additions.ofBytes selection symbol bytes = .ok additions ∧
      (∃ file : File, file.bytes = bytes) ∧ ∀ file : File, file.bytes = bytes →
        (out.bytes = bytes ↔ file.Canonical ∧ selection.Idle file.sections) ∧
        (additions.pending = [] ↔ selection.Idle file.sections) ∧
        (additions.pending = [] → out.bytes = Section.encodeModule file.sections ∧
          ∀ again, instrument selection again out.bytes = .ok out) := by
  obtain ⟨sections, outline, additions, spliced, hbuilt⟩ := built_of_instrument h
  have hlisted := Additions.listed_of_ofOutline hbuilt.added
  have hidle := Outline.idle_iff hbuilt.outlined selection
  have hpending : additions.pending = [] ↔ selection.Idle sections := by
    rw [Additions.pending_eq_nil_iff (hbuilt.size_lt hexports), ← hlisted.idle_iff, hidle]
  have hlt : outline.importedFunctions.toNat + outline.ownFunctions.toNat < UInt32.size :=
    Nat.lt_of_le_of_lt (Nat.le_add_right _ _) hlisted.indices_lt
  have hout (hquiet : selection.Idle sections) : out = ⟨Section.encodeModule sections, []⟩ := by
    have hagain := instrument_of_idle hbuilt.input hbuilt.outlined (hidle.2 hquiet) hlt symbol
    exact Except.ok.inj (h.symm.trans hagain)
  refine ⟨additions, ?_, ?_, ?_⟩
  · rw [Additions.ofBytes, Outline.ofBytes_eq_ok.2 ⟨sections, hbuilt.input, hbuilt.outlined⟩]
    exact hbuilt.added
  · obtain ⟨file, hfile, -⟩ := File.exists_of_readModule hbuilt.input
    exact ⟨file, hfile⟩
  · rintro file rfl
    obtain rfl : file.sections = sections :=
      Except.ok.inj (file.readModule_bytes.symm.trans hbuilt.input)
    refine ⟨⟨?_, ?_⟩, hpending, ?_⟩
    · intro hsame
      have hread := hbuilt.read
      rw [hsame, file.readModule_bytes] at hread
      cases hread
      have hquiet := hidle.1 (hlisted.idle_iff.2 (hbuilt.size_eq_zero_of_same hexports))
      refine ⟨?_, hquiet⟩
      rw [File.canonical_iff, ← hsame, hout hquiet]
    · rintro ⟨hcanonical, hquiet⟩
      rw [hout hquiet, File.canonical_iff.1 hcanonical]
    · intro hnone
      have hquiet := hpending.1 hnone
      have hread : Section.readModule out.bytes = .ok file.sections := by
        rw [hout hquiet]
        exact Section.readModule_encodeModule fun s hs =>
          ⟨(Section.of_readModule hbuilt.input).1 s hs,
            decide_eq_true (Section.length_lt_of_readModule hbuilt.input s hs)⟩
      refine ⟨by rw [hout hquiet], fun again => ?_⟩
      rw [instrument_of_idle hread hbuilt.outlined (hidle.2 hquiet) hlt again, hout hquiet]

/-- A module with a custom and an unknown section, an empty section of functions whose count takes two
bytes, a memory, a constant and a float. -/
def quietSections : List Section := [
  ⟨0, [1, 0x61, 0xff]⟩,
  ⟨3, [0x80, 0x00]⟩,
  ⟨5, [1, 0, 1]⟩,
  ⟨6, [2, 0x7f, 0, 0x41, 5, 0x0b, 0x7d, 1, 0x43, 0, 0, 0, 0, 0x0b]⟩,
  ⟨0x40, [1, 2, 3]⟩]

theorem instrument_unchanged_iff_quiet : ∃ out,
    instrument { memory := false } "_" (Section.encodeModule quietSections) = .ok out ∧
    out.exports.length < 2 ^ 32 ∧
    ∃ additions, Additions.ofBytes { memory := false } "_" (Section.encodeModule quietSections) =
        .ok additions ∧
      (∃ file : File, file.bytes = Section.encodeModule quietSections) ∧
      ∀ file : File, file.bytes = Section.encodeModule quietSections →
        (out.bytes = Section.encodeModule quietSections ↔
          file.Canonical ∧ Selection.Idle { memory := false } file.sections) ∧
        (additions.pending = [] ↔ Selection.Idle { memory := false } file.sections) ∧
        (additions.pending = [] → out.bytes = Section.encodeModule file.sections ∧
          ∀ again, instrument { memory := false } again out.bytes = .ok out) := by
  have hfew : (instrument { memory := false } "_"
      (Section.encodeModule quietSections)).toOption.any (·.exports.length < 2 ^ 32) = true := by
    decide +kernel
  cases h : instrument { memory := false } "_" (Section.encodeModule quietSections) with
  | error e =>
    rw [h] at hfew
    cases hfew
  | ok out =>
    rw [h] at hfew
    have hexports : out.exports.length < 2 ^ 32 := of_decide_eq_true hfew
    exact ⟨out, rfl, hexports, instrument_unchanged_iff h hexports⟩

end WasmSnapshot
