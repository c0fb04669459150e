import WasmSnapshot.Proofs.Instrument.Append

/-! Why a file is refused. An error that adding functions or splicing entries gives comes from a sum
that 32 bits do not hold, and where all sums are small enough nothing is refused but sections that
are too long. The sums are those of the numbers as they are kept: the count of the added entries of a
kind is their number modulo `2 ^ 32`. -/

namespace WasmSnapshot

/-- How many entries the first section of a kind declares, which is the one that receives more. -/
def Section.declared (kind : SectionKind) (sections : List Section) : Nat :=
  ((ofKind kind sections).head?.bind count?).getD 0

theorem Section.declared_of_nil {kind : SectionKind} {sections : List Section}
    (h : ofKind kind sections = []) : declared kind sections = 0 := by
  rw [declared, h]
  rfl

theorem Section.declared_of_cons {kind : SectionKind} {sections rest : List Section} {s : Section}
    {count : Nat} (h : ofKind kind sections = s :: rest) (hcount : s.count? = some count) :
    declared kind sections = count := by
  rw [declared, h, List.head?_cons, Option.bind_some, hcount]
  rfl

namespace Entries

variable {kind : SectionKind} {entries : Entries} {old bytes : Bytes} {n : Nat}
  {e : InstrumentError}

theorem appendTo_eq_error (hold : Leb128.size old = some (n, bytes))
    (h : entries.appendTo kind old = .error e) :
    e = .tooManyEntries kind ∧ 2 ^ 32 ≤ n + entries.count.toNat := by
  rw [appendTo_of_size hold] at h
  split at h
  · cases h
  · next hle =>
    cases h
    exact ⟨rfl, Nat.le_of_not_lt hle⟩

/-- Entries are placed in the first of several sections as in a section alone. -/
theorem placed_cons_eq_error {waiting : Option Entries} {s : Section} (rest : List Section)
    (h : placed kind waiting [s] = .error e) : placed kind waiting (s :: rest) = .error e := by
  cases waiting with
  | none => cases h
  | some entries =>
    rw [placed] at h ⊢
    rcases Except.bind_eq_error h with h | ⟨contents, -, h⟩
    · rw [h]
      rfl
    · cases h

end Entries

namespace Pending

variable {pending : Pending} {present : SectionKind → Bool} {sections : List Section}
  {e : InstrumentError}

/-- Splicing fails because some entries cannot be placed among the sections of their kind. -/
theorem splice_eq_error (hnodup : pending.targets.Nodup)
    (h : splice present pending sections = .error e) :
    ∃ kind, Entries.placed kind (pending.lookup kind) (Section.ofKind kind sections) = .error e := by
  induction sections generalizing pending with
  | nil => cases h
  | cons s sections ih =>
    cases hkind : s.kind? with
    | none =>
      rw [splice, hkind] at h
      rcases Except.bind_eq_error h with h | ⟨_, -, h⟩
      · obtain ⟨kind, hplaced⟩ := ih hnodup h
        refine ⟨kind, ?_⟩
        rw [Section.ofKind_cons_ne (Section.kind?_eq_none_iff.1 hkind kind)]
        exact hplaced
      · cases h
    | some here =>
      have hid : s.id = here.id := Section.kind?_eq_some_iff.1 hkind
      rw [splice_cons_eq hnodup hkind] at h
      have hlookup (kind : SectionKind) := lookup_filter (!isDue present here ·) kind pending
      have hwaiting : (targets (pending.filter fun e => !isDue present here e.1)).Nodup :=
        hnodup.sublist (List.filter_sublist.map _)
      generalize (pending.filter fun e => !isDue present here e.1) = waiting at h hlookup hwaiting
      rcases Except.bind_eq_error h with h | ⟨placed, -, h⟩
      · -- What waits for this kind is not due before its own section.
        have hhere : isDue present here here = false := by simp [isDue]
        rw [hlookup here, hhere, Bool.not_false, if_pos rfl] at h
        refine ⟨here, ?_⟩
        rw [Section.ofKind_cons_self hid]
        exact Entries.placed_cons_eq_error _ h
      · rcases Except.bind_eq_error h with h | ⟨others, -, h⟩
        · obtain ⟨kind, hplaced⟩ := ih (hwaiting.sublist (List.filter_sublist.map _)) h
          rw [lookup_filter (· != here), hlookup kind] at hplaced
          -- Something waits for the kind that cannot be placed, so it is another one.
          have hne : kind ≠ here := by
            rintro rfl
            rw [bne_self_eq_false, if_neg (by decide)] at hplaced
            cases hplaced
          rw [if_pos (by simpa using hne)] at hplaced
          have hnotdue : isDue present here kind = false := by
            cases hdue : isDue present here kind with
            | false => rfl
            | true =>
              rw [hdue, if_neg (by decide)] at hplaced
              cases hplaced
          rw [hnotdue, Bool.not_false, if_pos rfl] at hplaced
          refine ⟨kind, ?_⟩
          rw [Section.ofKind_cons_ne fun heq => hne (SectionKind.id_injective (heq.symm.trans hid))]
          exact hplaced
        · cases h

end Pending

namespace Additions

variable {selection : Selection} {symbol : String} {outline : Outline} {additions : Additions}
  {sections : List Section} {e : InstrumentError}

theorem addFunction_eq_error {function : AccessorFunction}
    (h : additions.addFunction function = .error e) :
    e = .tooManyEntries .functions ∧ 2 ^ 32 ≤ additions.nextFunction.toNat + 1 ∨
    e = .tooManyEntries .types ∧
      2 ^ 32 ≤ additions.firstType.toNat + function.signature.offset.toNat := by
  unfold addFunction at h
  simp only at h
  split at h
  · next hindex =>
    cases h
    exact .inl ⟨rfl, hindex⟩
  · split at h
    · next htype =>
      cases h
      exact .inr ⟨rfl, htype⟩
    · cases h

/-- Functions are not added for want of indices, or of type indices. -/
theorem foldlM_addFunction_eq_error {functions : List AccessorFunction}
    (h : functions.foldlM addFunction additions = .error e) :
    e = .tooManyEntries .functions ∧ 2 ^ 32 ≤ additions.nextFunction.toNat + functions.length ∨
    e = .tooManyEntries .types ∧
      ∃ f ∈ functions, 2 ^ 32 ≤ additions.firstType.toNat + f.signature.offset.toNat := by
  induction functions generalizing additions with
  | nil => cases h
  | cons function functions ih =>
    rw [List.foldlM_cons] at h
    rcases Except.bind_eq_error h with h | ⟨next, hnext, h⟩
    · rcases addFunction_eq_error h with ⟨he, hindex⟩ | ⟨he, htype⟩
      · refine .inl ⟨he, ?_⟩
        rw [List.length_cons]
        omega
      · exact .inr ⟨he, function, List.mem_cons_self, htype⟩
    · obtain ⟨hindex, -, rfl⟩ := addFunction_eq_ok hnext
      rcases ih h with ⟨he, hindices⟩ | ⟨he, f, hf, htype⟩
      · refine .inl ⟨he, ?_⟩
        have hone : (additions.nextFunction + 1).toNat = additions.nextFunction.toNat + 1 := by
          rw [UInt32.toNat_add]
          exact Nat.mod_eq_of_lt hindex
        rw [hone] at hindices
        rw [List.length_cons]
        omega
      · exact .inr ⟨he, f, List.mem_cons_of_mem _ hf, htype⟩

theorem ofOutline_eq_error (h : ofOutline selection symbol outline = .error e) :
    e = .tooManyEntries .functions ∧ 2 ^ 32 ≤ outline.importedFunctions.toNat +
      outline.ownFunctions.toNat + (accessorFunctions selection outline).length ∨
    e = .tooManyEntries .types ∧ ∃ f ∈ accessorFunctions selection outline,
      2 ^ 32 ≤ outline.typeCount.toNat + f.signature.offset.toNat := by
  unfold ofOutline at h
  split at h
  · next hlt =>
    rw [ofItems_eq] at h
    rcases foldlM_addFunction_eq_error h with ⟨he, hindices⟩ | ⟨he, htypes⟩
    · rw [UInt32.toNat_add, Nat.mod_eq_of_lt hlt] at hindices
      exact .inl ⟨he, hindices⟩
    · exact .inr ⟨he, htypes⟩
  · next hle =>
    cases h
    exact .inl ⟨rfl, Nat.le_trans (Nat.le_of_not_lt hle) (Nat.le_add_right _ _)⟩

/-- Entries cannot be placed if the section that is to receive them would count too many. -/
theorem placed_eq_error (houtline : Outline.ofSections sections = .ok outline) {kind : SectionKind}
    (h : Entries.placed kind (additions.pending.lookup kind) (Section.ofKind kind sections) =
      .error e) : kind ∈ targets ∧ e = .tooManyEntries kind ∧
        2 ^ 32 ≤ Section.declared kind sections + (additions.entries kind).count.toNat := by
  cases hlookup : additions.pending.lookup kind with
  | none =>
    rw [hlookup] at h
    cases h
  | some entries =>
    obtain ⟨hkind, rfl⟩ := eq_entries_of_lookup hlookup
    rw [hlookup] at h
    cases hold : Section.ofKind kind sections with
    | nil =>
      rw [hold] at h
      cases h
    | cons s rest =>
      have hs : s ∈ Section.ofKind kind sections := by
        rw [hold]
        exact List.mem_cons_self
      obtain ⟨hmem, hid⟩ := List.mem_filter.1 hs
      obtain ⟨count, old, hsize⟩ :=
        Outline.size_of_ofSections houtline hmem (of_decide_eq_true hid) hkind
      rw [hold, Entries.placed] at h
      rw [Section.declared_of_cons hold (Section.count?_of_size hsize)]
      rcases Except.bind_eq_error h with h | ⟨contents, -, h⟩
      · exact ⟨hkind, Entries.appendTo_eq_error hsize h⟩
      · cases h

/-- What stands in the first section of a kind once its entries are placed: the count is the sum, and
the entries come last. -/
theorem placed_eq_ok (houtline : Outline.ofSections sections = .ok outline) {kind : SectionKind}
    {spliced : List Section} (hkind : kind ∈ targets)
    (h : Entries.placed kind (additions.pending.lookup kind) (Section.ofKind kind sections) =
      .ok (Section.ofKind kind spliced)) :
    Section.declared kind spliced =
        Section.declared kind sections + (additions.entries kind).count.toNat ∧
      Section.declared kind spliced < 2 ^ 32 ∧
      (¬(additions.entries kind).isEmpty → ∃ s rest front, Section.ofKind kind spliced = s :: rest ∧
        s.contents = front ++ (additions.entries kind).bytes) := by
  have hsized : ∀ s ∈ Section.ofKind kind sections, ∃ count old,
      Leb128.size s.contents = some (count, old) := by
    intro s hs
    obtain ⟨hmem, hid⟩ := List.mem_filter.1 hs
    exact Outline.size_of_ofSections houtline hmem (of_decide_eq_true hid) hkind
  rw [lookup_pending, if_pos hkind, Module.someEntries] at h
  split at h
  · next hempty =>
    have hzero : (additions.entries kind).count.toNat = 0 := by
      rw [Entries.isEmpty, decide_eq_true_eq] at hempty
      rw [hempty]
      rfl
    have hsame : Section.ofKind kind sections = Section.ofKind kind spliced := Except.ok.inj h
    refine ⟨?_, ?_, fun hsome => absurd hempty hsome⟩
    · rw [Section.declared, Section.declared, hsame, hzero, Nat.add_zero]
    · cases hold : Section.ofKind kind spliced with
      | nil =>
        rw [Section.declared_of_nil hold]
        decide
      | cons s rest =>
        obtain ⟨count, old, hsize⟩ := hsized s (by rw [hsame, hold]; exact List.mem_cons_self)
        rw [Section.declared_of_cons hold (Section.count?_of_size hsize)]
        exact Leb128.lt_of_unsigned hsize
  · cases hold : Section.ofKind kind sections with
    | nil =>
      rw [hold] at h
      have hnew := (Except.ok.inj h).symm
      have hsize : Leb128.size (additions.entries kind).contents =
          some ((additions.entries kind).count.toNat, (additions.entries kind).bytes) :=
        Leb128.size_encode (UInt32.toNat_lt _) _
      rw [Section.declared_of_nil hold,
        Section.declared_of_cons hnew (Section.count?_of_size hsize), Nat.zero_add]
      exact ⟨rfl, UInt32.toNat_lt _, fun _ => ⟨_, _, _, hnew, rfl⟩⟩
    | cons s rest =>
      obtain ⟨count, old, hsize⟩ := hsized s (by rw [hold]; exact List.mem_cons_self)
      rw [hold, Entries.placed] at h
      obtain ⟨contents, hcontents, h⟩ := Except.bind_eq_ok h
      have hnew := (Except.ok.inj h).symm
      obtain ⟨hlt, rfl⟩ := Entries.appendTo_eq_ok hsize hcontents
      have hsum := Leb128.size_encode hlt (old ++ (additions.entries kind).bytes)
      rw [Section.declared_of_cons hold (Section.count?_of_size hsize),
        Section.declared_of_cons hnew (Section.count?_of_size hsum)]
      exact ⟨rfl, hlt, fun _ => ⟨_, rest, Leb128.encode _ ++ old, hnew, (List.append_assoc ..).symm⟩⟩

/-- How many entries are called for, kind by kind. -/
def planned (selection : Selection) (symbol : String) (outline : Outline) : SectionKind → Nat
  | .types => (signaturesFor selection outline).length
  | .functions | .code => (accessorFunctions selection outline).length
  | .exports => (itemExports selection symbol outline).length +
    (accessorFunctions selection outline).length
  | _ => 0

theorem Listed.size_eq (h : Listed selection symbol outline additions) (kind : SectionKind) :
    additions.size kind = planned selection symbol outline kind := by
  cases kind with
  | types => rw [size, ← Array.length_toList, h.signatures, planned]
  | functions => rw [size, ← Array.length_toList, h.functions, List.length_map, planned]
  | code => rw [size, ← Array.length_toList, h.code, List.length_map, planned]
  | exports =>
    rw [size, ← Array.length_toList, h.exports, List.length_append, functionExports,
      List.length_map, List.length_zipIdx, planned]
  | imports | tables | memories | tags | globals | start | elements | dataCount | data => rfl

/-- The additions fit into the file: the functions have indices, their types have, and each section
that receives entries can count them. -/
structure Fit (selection : Selection) (symbol : String) (outline : Outline)
    (sections : List Section) : Prop where
  indices : outline.importedFunctions.toNat + outline.ownFunctions.toNat +
    (accessorFunctions selection outline).length < 2 ^ 32
  types : ∀ f ∈ accessorFunctions selection outline,
    outline.typeCount.toNat + f.signature.offset.toNat < 2 ^ 32
  counts : ∀ kind ∈ targets,
    Section.declared kind sections + planned selection symbol outline kind % 2 ^ 32 < 2 ^ 32

end Additions

section

variable {selection : Selection} {symbol : String} {bytes : Bytes} {sections : List Section}
  {outline : Outline}

theorem instrument_of_outline (hread : Section.readModule bytes = .ok sections)
    (houtline : Outline.ofSections sections = .ok outline) : instrument selection symbol bytes = (do
      let additions ← Additions.ofOutline selection symbol outline
      let spliced ← additions.pending.splice outline.hasSection sections
      if spliced.all Section.fits then
        pure { bytes := Section.encodeModule spliced, exports := additions.exports.toList }
      else throw .sectionTooLong) := by
  rw [instrument, hread]
  simp only [bind, Except.bind, houtline]

/-- An accepted file is refused for its numbers just if the additions do not fit. -/
theorem refused_iff_not_fit (selection : Selection) (symbol : String)
    (hread : Section.readModule bytes = .ok sections)
    (houtline : Outline.ofSections sections = .ok outline) :
    (∃ kind, instrument selection symbol bytes = .error (.tooManyEntries kind)) ↔
      ¬Additions.Fit selection symbol outline sections := by
  constructor
  · rintro ⟨kind, h⟩ hfit
    rw [instrument_of_outline hread houtline] at h
    rcases Except.bind_eq_error h with h | ⟨additions, hadditions, h⟩
    · rcases Additions.ofOutline_eq_error h with ⟨-, hindices⟩ | ⟨-, f, hf, htype⟩
      · exact Nat.not_le_of_lt hfit.indices hindices
      · exact Nat.not_le_of_lt (hfit.types f hf) htype
    · rcases Except.bind_eq_error h with h | ⟨spliced, -, h⟩
      · obtain ⟨target, hplaced⟩ := Pending.splice_eq_error additions.targets_nodup h
        obtain ⟨htarget, -, hle⟩ := Additions.placed_eq_error houtline hplaced
        have hsize := (Additions.listed_of_ofOutline hadditions).size_eq target
        rw [Additions.toNat_count_entries, hsize] at hle
        exact Nat.not_le_of_lt (hfit.counts target htarget) hle
      · split at h <;> cases h
  · intro hnot
    cases hadditions : Additions.ofOutline selection symbol outline with
    | error e =>
      obtain ⟨kind, rfl⟩ : ∃ kind, e = .tooManyEntries kind := by
        rcases Additions.ofOutline_eq_error hadditions with ⟨he, -⟩ | ⟨he, -⟩
        · exact ⟨_, he⟩
        · exact ⟨_, he⟩
      refine ⟨kind, ?_⟩
      rw [instrument_of_outline hread houtline, hadditions]
      rfl
    | ok additions =>
      have hlisted := Additions.listed_of_ofOutline hadditions
      cases hsplice : additions.pending.splice outline.hasSection sections with
      | error e =>
        obtain ⟨kind, hplaced⟩ := Pending.splice_eq_error additions.targets_nodup hsplice
        obtain ⟨-, rfl, -⟩ := Additions.placed_eq_error houtline hplaced
        refine ⟨kind, ?_⟩
        rw [instrument_of_outline hread houtline, hadditions]
        simp only [bind, Except.bind, hsplice]
      | ok spliced =>
        refine absurd ?_ hnot
        refine ⟨hlisted.indices_lt, hlisted.types_lt, fun kind hkind => ?_⟩
        have hplaced := (Additions.spliced_of_splice houtline hsplice).placed
          (fun _ hs => List.mem_map_of_mem hs) kind
        obtain ⟨hsum, hlt, -⟩ := Additions.placed_eq_ok houtline hkind hplaced
        rwa [hsum, Additions.toNat_count_entries, hlisted.size_eq] at hlt

end

end WasmSnapshot
