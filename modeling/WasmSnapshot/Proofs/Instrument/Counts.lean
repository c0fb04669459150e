import WasmSnapshot.Proofs.Instrument.Refused
import WasmSnapshot.Proofs.Instrument.Unchanged

/-! How the entries of an output are counted. A section that receives entries counts the old and the
new ones together, and a file whose index spaces would hold too many is refused. This is so of files
that have no section twice and are given fewer than `2 ^ 32` exports. In other files the functions of
all sections but the last are left out of the sum, and `2 ^ 32` exports are counted as none. -/

namespace WasmSnapshot

namespace Section

/-- The sections that instrumenting takes the size of an index space from occur at most once. -/
def Unrepeated (sections : List Section) : Prop :=
  ∀ kind ∈ .imports :: Additions.targets, (ofKind kind sections).length ≤ 1

variable {kind : SectionKind} {sections : List Section}

theorem Unrepeated.nil_or_singleton (h : Unrepeated sections) (kind : SectionKind)
    (hkind : kind ∈ .imports :: Additions.targets) :
    ofKind kind sections = [] ∨ ∃ s, ofKind kind sections = [s] := by
  have hle := h kind hkind
  match hsections : ofKind kind sections with
  | [] => exact .inl rfl
  | [s] => exact .inr ⟨s, rfl⟩
  | _ :: _ :: _ => simp [hsections] at hle

theorem Unrepeated.declared_eq (h : Unrepeated sections) (hkind : kind ∈ Additions.targets) :
    declared kind sections = Outline.announced kind sections := by
  rcases h.nil_or_singleton kind (List.mem_cons_of_mem _ hkind) with hnone | ⟨s, hs⟩
  · rw [declared_of_nil hnone, Outline.announced_of_nil hnone]
  · simp [declared, Outline.announced, hs, count?]

/-- Of a single section of functions, the first is the last. -/
theorem ownFunctions_eq_declared {outline : Outline}
    (honce : (ofKind .functions sections).length ≤ 1)
    (houtline : Outline.ofSections sections = .ok outline) :
    outline.ownFunctions.toNat = declared .functions sections := by
  rw [Outline.ownFunctions_eq houtline, declared]
  cases hsections : ofKind .functions sections with
  | nil => rfl
  | cons s rest =>
    rw [hsections, List.length_cons] at honce
    have hrest : rest = [] := List.eq_nil_of_length_eq_zero (by omega)
    rw [hrest]
    rfl

theorem Unrepeated.ownFunctions_eq (h : Unrepeated sections) {outline : Outline}
    (houtline : Outline.ofSections sections = .ok outline) :
    outline.ownFunctions.toNat = Outline.announced .functions sections := by
  rw [ownFunctions_eq_declared (h .functions (by decide)) houtline, h.declared_eq (by decide)]

/-- The contents of a section are bounded by the length before them. -/
theorem length_contents_lt {bytes : Bytes} (hread : readModule bytes = .ok sections) {s : Section}
    (hs : ofKind kind sections = [s]) : s.contents.length < 2 ^ 32 := by
  apply length_lt_of_readModule hread
  have hmem : s ∈ ofKind kind sections := by
    rw [hs]
    exact List.mem_singleton_self s
  exact List.mem_of_mem_filter hmem

theorem Unrepeated.length_imports_lt (h : Unrepeated sections) {bytes : Bytes}
    (hread : readModule bytes = .ok sections) {imports : List Import}
    (himports : Module.entries? sections .imports Import.read = some imports) :
    imports.length < 2 ^ 32 := by
  rcases h.nil_or_singleton .imports (by decide) with hnone | ⟨s, hs⟩
  · rw [Module.entries?_of_nil hnone] at himports
    cases himports
    decide
  · rw [Module.entries?_of_singleton hs] at himports
    have := (Reader.takes_of_consuming (r := Import.read)).length_lt_of_counted himports
    have := length_contents_lt hread hs
    omega

/-- One section of types has room for fewer than `2 ^ 31` groups, and for as many types. -/
theorem Unrepeated.length_groups_lt (h : Unrepeated sections) {bytes : Bytes}
    (hread : readModule bytes = .ok sections) {groups : List (List SubType)}
    (hgroups : Module.entries? sections .types SubType.readGroup = some groups) :
    declared .types sections < 2 ^ 31 ∧ groups.flatten.length < 2 ^ 31 := by
  rcases h.nil_or_singleton .types (by decide) with hnone | ⟨s, hs⟩
  · rw [Module.entries?_of_nil hnone] at hgroups
    cases hgroups
    rw [declared_of_nil hnone]
    decide
  · rw [Module.entries?_of_singleton hs] at hgroups
    rw [declared_of_cons hs (Outline.whole_readOpaqueEntries hgroups)]
    have := SubType.takes_readGroup.length_lt_of_counted hgroups
    have := SubType.length_flatten_lt hgroups
    have := length_contents_lt hread hs
    omega

end Section

namespace Additions

variable {selection : Selection} {symbol : String} {outline : Outline} {additions : Additions}
  {sections : List Section}

theorem length_itemExports : (itemExports selection symbol outline).length =
    (if selection.memory then outline.memory else none).toList.length +
      (if selection.table then outline.table else none).toList.length +
      outline.ownFunctions.toNat := by
  simp [itemExports, ownFunctions, Nat.add_assoc]

theorem planned_types_le (selection : Selection) (symbol : String) (outline : Outline) :
    planned selection symbol outline .types ≤ 3 := by
  rw [planned, signaturesFor]
  split <;> decide

/-- How many entries an index space has with the additions. -/
def total (selection : Selection) (symbol : String) (outline : Outline) (sections : List Section)
    (imports : List Import) (groups : List (List SubType)) (kind : SectionKind) : Nat :=
  planned selection symbol outline kind + match kind with
    | .types => groups.flatten.length
    | .functions => Import.count .func imports + Outline.announced .functions sections
    | kind => Outline.announced kind sections

/-- In a file without repeated sections the additions fit just if the index spaces hold them. -/
theorem fit_iff_total_lt {bytes : Bytes} (hread : Section.readModule bytes = .ok sections)
    (houtline : Outline.ofSections sections = .ok outline) (honce : Section.Unrepeated sections)
    (hexports : planned selection symbol outline .exports < 2 ^ 32) {imports : List Import}
    {groups : List (List SubType)}
    (himports : Module.entries? sections .imports Import.read = some imports)
    (hgroups : Module.entries? sections .types SubType.readGroup = some groups) :
    Fit selection symbol outline sections ↔
      ∀ kind ∈ targets, total selection symbol outline sections imports groups kind < 2 ^ 32 := by
  have himported : outline.importedFunctions.toNat = Import.count .func imports := by
    obtain ⟨imports', himports', hcount, -⟩ := Outline.exists_imports houtline
    rw [himports] at himports'
    cases himports'
    have hlt := honce.length_imports_lt hread himports
    rw [hcount]
    exact UInt32.toNat_ofNat_of_lt' (Nat.lt_of_le_of_lt (Import.count_le_length _ _) hlt)
  have htypes : outline.typeCount.toNat = groups.flatten.length := by
    obtain ⟨groups', hgroups', hcount⟩ := Outline.exists_types houtline
    rw [hgroups] at hgroups'
    cases hgroups'
    exact hcount
  have hown := honce.ownFunctions_eq houtline
  obtain ⟨hdeclared, hflatten⟩ := honce.length_groups_lt hread hgroups
  have hsigned := planned_types_le selection symbol outline
  constructor
  · rintro ⟨hindices, -, hcounts⟩ kind hkind
    have hcount := hcounts kind hkind
    rw [honce.declared_eq hkind] at hcount
    cases kind with
    | types =>
      simp only [total]
      omega
    | functions =>
      simp only [total, planned]
      omega
    | exports =>
      simp only [total]
      rw [Nat.mod_eq_of_lt hexports] at hcount
      omega
    | code =>
      have hlt : planned selection symbol outline .code < 2 ^ 32 :=
        Nat.lt_of_le_of_lt (Nat.le_add_left _ _) hindices
      simp only [total]
      rw [Nat.mod_eq_of_lt hlt] at hcount
      omega
    | imports | tables | memories | tags | globals | start | elements | dataCount | data =>
      exact absurd hkind (by decide)
  · intro htotal
    refine ⟨?_, fun f hf => ?_, fun kind hkind => ?_⟩
    · have hfunctions := htotal .functions (by decide)
      simp only [total, planned] at hfunctions
      omega
    · have hoffset : f.signature.offset.toNat < 3 := by cases f.signature <;> decide
      omega
    · have hkindTotal := htotal kind hkind
      have hmod := Nat.mod_le (planned selection symbol outline kind) (2 ^ 32)
      cases kind with
      | types => omega
      | functions | exports | code =>
        rw [honce.declared_eq hkind]
        simp only [total] at hkindTotal
        omega
      | imports | tables | memories | tags | globals | start | elements | dataCount | data =>
        exact absurd hkind (by decide)

/-- The sections of an output, with the additions counted. Only the exports can be as many as
`2 ^ 32`, and then none of them is placed. -/
structure Counted (additions : Additions) (sections spliced : List Section) : Prop where
  declared_lt : ∀ kind ∈ targets, Section.declared kind spliced < 2 ^ 32
  declared : ∀ kind ∈ targets, additions.size kind < 2 ^ 32 → Section.declared kind spliced =
    Section.declared kind sections + additions.size kind
  appended : ∀ kind ∈ targets, 0 < additions.size kind → additions.size kind < 2 ^ 32 →
    ∃ s rest front, Section.ofKind kind spliced = s :: rest ∧
      s.contents = front ++ (additions.entries kind).bytes
  size_lt : ∀ kind ∈ targets, kind ≠ .exports → additions.size kind < 2 ^ 32
  size_exports_le : additions.size .exports ≤ 2 ^ 32
  uncounted : additions.size .exports = 2 ^ 32 →
    Section.ofKind .exports spliced = Section.ofKind .exports sections

end Additions

namespace Instrumented.Built

variable {selection : Selection} {symbol : String} {bytes : Bytes} {sections spliced : List Section}
  {outline : Outline} {additions : Additions} {out : Instrumented}

/-- The count of exports wraps at one number only: more of them would not fit into a section. -/
theorem size_exports_le (h : Built selection symbol bytes sections outline additions spliced out) :
    additions.size .exports ≤ 2 ^ 32 := by
  have hsize : additions.size .exports = out.exports.length := by
    rw [h.exports]
    exact Array.length_toList.symm
  by_cases hempty : (additions.entries .exports).isEmpty = true
  · rw [Entries.isEmpty, decide_eq_true_eq, ← UInt32.toNat_inj,
      Additions.toNat_count_entries] at hempty
    have hzero : additions.size .exports % 2 ^ 32 = 0 := hempty
    have hlisted := Additions.listed_of_ofOutline h.added
    have hplanned := hlisted.size_eq .exports
    rw [Additions.planned, Additions.length_itemExports] at hplanned
    have := hlisted.indices_lt
    have := Option.length_toList_le (o := if selection.memory then outline.memory else none)
    have := Option.length_toList_le (o := if selection.table then outline.table else none)
    omega
  · have := (h.exports_fit hempty).1
    omega

theorem counted (h : Built selection symbol bytes sections outline additions spliced out) :
    additions.Counted sections spliced := by
  have hlisted := Additions.listed_of_ofOutline h.added
  have hplaced (kind : SectionKind) (hkind : kind ∈ Additions.targets) :=
    Additions.placed_eq_ok h.outlined hkind (h.placed_kind kind)
  exact {
    declared_lt := fun kind hkind => (hplaced kind hkind).2.1
    declared := fun kind hkind hlt => by
      rw [(hplaced kind hkind).1, Additions.count_entries hlt]
    appended := fun kind hkind hpos hlt => by
      refine (hplaced kind hkind).2.2 fun hempty => ?_
      rw [Entries.isEmpty, decide_eq_true_eq, ← UInt32.toNat_inj,
        Additions.count_entries hlt] at hempty
      exact Nat.ne_of_gt hpos hempty
    size_lt := fun kind _ hne => Additions.size_lt_of_ne hlisted hne
    size_exports_le := h.size_exports_le
    uncounted := fun hsize => by
      have hempty : (additions.entries .exports).isEmpty = true := by
        rw [Entries.isEmpty, decide_eq_true_eq, ← UInt32.toNat_inj,
          Additions.toNat_count_entries, hsize]
        rfl
      have hexports := h.placed_kind .exports
      rw [Additions.lookup_pending, if_pos (by decide), Module.someEntries, if_pos hempty] at hexports
      exact (Except.ok.inj hexports).symm }

end Instrumented.Built

/-- Of an accepted file the output counts all entries, and the file is refused for its numbers just
if the additions do not fit. Where no section is repeated and the exports can be counted, that means
just if an index space would have too many entries. -/
theorem entries_counted {selection : Selection} {symbol : String} {bytes : Bytes}
    {sections : List Section} {outline : Outline} (hread : Section.readModule bytes = .ok sections)
    (houtline : Outline.ofSections sections = .ok outline) :
    (∀ out, instrument selection symbol bytes = .ok out → ∃ additions spliced,
      Additions.ofOutline selection symbol outline = .ok additions ∧
      out.exports = additions.exports.toList ∧ Section.readModule out.bytes = .ok spliced ∧
      additions.Counted sections spliced) ∧
    ((∃ kind, instrument selection symbol bytes = .error (.tooManyEntries kind)) ↔
      ¬Additions.Fit selection symbol outline sections) ∧
    (Section.Unrepeated sections →
      Additions.planned selection symbol outline .exports < 2 ^ 32 → ∃ imports groups,
        Module.entries? sections .imports Import.read = some imports ∧
        Module.entries? sections .types SubType.readGroup = some groups ∧
        ((∃ kind, instrument selection symbol bytes = .error (.tooManyEntries kind)) ↔
          ∃ kind ∈ Additions.targets,
            2 ^ 32 ≤ Additions.total selection symbol outline sections imports groups kind)) := by
  have hrefused := refused_iff_not_fit selection symbol hread houtline
  refine ⟨fun out h => ?_, hrefused, fun honce hexports => ?_⟩
  · obtain ⟨sections', outline', additions, spliced, hbuilt⟩ := built_of_instrument h
    cases hread.symm.trans hbuilt.input
    cases houtline.symm.trans hbuilt.outlined
    exact ⟨additions, spliced, hbuilt.added, hbuilt.exports, hbuilt.read, hbuilt.counted⟩
  · obtain ⟨imports, himports, -⟩ := Outline.exists_imports houtline
    obtain ⟨groups, hgroups, -⟩ := Outline.exists_types houtline
    refine ⟨imports, groups, himports, hgroups, ?_⟩
    rw [hrefused, Additions.fit_iff_total_lt hread houtline honce hexports himports hgroups]
    simp

/-- A file with two sections of functions and a global. -/
def repeatedSections : List Section := [
  ⟨3, [0xfc, 0xff, 0xff, 0xff, 0x0f]⟩,
  ⟨3, [2]⟩,
  ⟨6, [1, 0x7f, 1, 0x41, 5, 0x0b]⟩]

/-- With two accessor functions there are `2 ^ 32` functions, and the file is not refused. -/
theorem overfull_accepted : ∃ out spliced,
    instrument .all "_" (Section.encodeModule repeatedSections) = .ok out ∧
    Section.readModule out.bytes = .ok spliced ∧ Outline.announced .functions spliced = 2 ^ 32 := by
  have hannounced : (do
      let out ← instrument .all "_" (Section.encodeModule repeatedSections)
      let spliced ← Section.readModule out.bytes
      pure (Outline.announced .functions spliced)) = Except.ok (2 ^ 32) := by decide +kernel
  obtain ⟨out, hout, hannounced⟩ := Except.bind_eq_ok hannounced
  obtain ⟨spliced, hspliced, hannounced⟩ := Except.bind_eq_ok hannounced
  exact ⟨out, spliced, hout, hspliced, Except.ok.inj hannounced⟩

/-- A file that declares `2 ^ 32 - 1` functions, and a memory. -/
def crowdedSections : List Section := [
  ⟨3, [0xff, 0xff, 0xff, 0xff, 0x0f]⟩,
  ⟨5, [1, 0, 1]⟩]

def crowdedOutline : Outline :=
  { sectionIds := [3, 5], ownFunctions := 0xffffffff, memory := some 0 }

/-- The exports of its memory and its functions are counted as none. -/
theorem additions_crowded : ∃ additions,
    Additions.ofOutline .all "_" crowdedOutline = .ok additions ∧ additions.pending = [] ∧
      additions.size .exports = 2 ^ 32 := by
  have hexports : (Additions.ofItems .all "_" crowdedOutline).size .exports = 2 ^ 32 := by
    rw [Additions.ofItems_eq, Additions.size, List.size_toArray, Additions.length_itemExports]
    rfl
  refine ⟨Additions.ofItems .all "_" crowdedOutline, ?_, ?_, hexports⟩
  · rw [Additions.ofOutline, if_pos (by decide)]
    rfl
  · rw [Additions.pending_eq_nil_iff_mod]
    intro kind hkind
    cases kind with
    | exports => rw [hexports, Nat.mod_self]
    | types | functions | code =>
      rw [Additions.ofItems_eq]
      rfl
    | imports | tables | memories | tags | globals | start | elements | dataCount | data =>
      exact absurd hkind (by decide)

theorem entries_counted_crowded : ∃ out spliced,
    instrument .all "_" (Section.encodeModule crowdedSections) = .ok out ∧
    out.exports.length = 2 ^ 32 ∧ Section.readModule out.bytes = .ok spliced ∧
    Section.ofKind .exports spliced = [] := by
  have hread : Section.readModule (Section.encodeModule crowdedSections) = .ok crowdedSections :=
    Section.readModule_encodeModule (by decide)
  have houtline : Outline.ofSections crowdedSections = .ok crowdedOutline := by decide +kernel
  obtain ⟨additions, hadditions, hpending, hexports⟩ := additions_crowded
  have hsplice : additions.pending.splice crowdedOutline.hasSection crowdedSections =
      .ok crowdedSections := by
    rw [hpending, Pending.splice_nil]
  have hok := instrument_of_splice hread houtline hadditions hsplice
  rw [if_pos (by decide)] at hok
  obtain ⟨additions', spliced, hadded, -, hspliced, hcounted⟩ :=
    (entries_counted hread houtline).1 _ hok
  obtain rfl : additions = additions' := Except.ok.inj (hadditions.symm.trans hadded)
  refine ⟨_, spliced, hok, ?_, hspliced, ?_⟩
  · rw [Array.length_toList]
    exact hexports
  · rw [hcounted.uncounted hexports]
    rfl

end WasmSnapshot
