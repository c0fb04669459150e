import WasmSnapshot.Proofs.Instrument.Counts
import WasmSnapshot.Proofs.Instrument.Declarations

/-! When a file of less than `2 ^ 32` bytes is refused, and with which error. Types, imports, globals
and bodies take bytes of the file, so they can always be counted. Functions and exports may be
declared without any bytes for them, and they alone can be too many. -/

namespace WasmSnapshot

namespace Outline

variable {outline : Outline} {s : Section} {sections : List Section} {e : InstrumentError}

theorem contentsOf_eq_error {α : Type} {contents : Reader α} (h : contentsOf s contents = .error e) :
    e = .malformed := by
  unfold contentsOf at h
  split at h
  · cases h
  · cases h
    rfl

/-- As long as the types take bytes of a short file, only its form can keep it from being outlined. -/
theorem addContents_eq_error {kind : SectionKind}
    (hroom : outline.typeCount.toNat + s.contents.length < 2 ^ 32)
    (h : outline.addContents s kind = .error e) : e = .malformed := by
  cases kind with
  | types =>
    rcases Except.bind_eq_error h with h | ⟨groups, hgroups, h⟩
    · exact contentsOf_eq_error h
    · have := SubType.length_flatten_lt (contentsOf_eq_ok hgroups)
      rw [foldlM_addTypes (by omega)] at h
      cases h
  | imports | functions | tables | memories | globals | start | dataCount | code | tags | exports |
      elements | data =>
    rcases Except.bind_eq_error h with h | ⟨_, -, h⟩
    · exact contentsOf_eq_error h
    · cases h

theorem addSection_eq_error (hroom : outline.typeCount.toNat + s.contents.length < 2 ^ 32)
    (h : outline.addSection s = .error e) : e = .malformed := by
  unfold addSection at h
  simp only at h
  split at h
  · refine addContents_eq_error ?_ h
    exact hroom
  · split at h
    · rcases Except.bind_eq_error h with h | ⟨_, -, h⟩
      · exact contentsOf_eq_error h
      · cases h
    · cases h

theorem foldlM_addSection_eq_error
    (hroom : outline.typeCount.toNat + Section.contentSize sections < 2 ^ 32)
    (h : sections.foldlM addSection outline = .error e) : e = .malformed := by
  induction sections generalizing outline with
  | nil => cases h
  | cons s sections ih =>
    rw [Section.contentSize_cons] at hroom
    rw [List.foldlM_cons] at h
    rcases Except.bind_eq_error h with h | ⟨next, hnext, h⟩
    · exact addSection_eq_error (by omega) h
    · have := (advances_of_addSection hnext).typeCount_le
      exact ih (by omega) h

/-- A short file whose form is right can be outlined. -/
theorem exists_outline {bytes : Bytes} (hread : Section.readModule bytes = .ok sections)
    (hlength : bytes.length < 2 ^ 32) (haccepted : ofSections sections ≠ .error .malformed) :
    ∃ outline, ofSections sections = .ok outline := by
  have := (Section.of_readModule hread).2
  cases h : ofSections sections with
  | ok outline => exact ⟨outline, rfl⟩
  | error e =>
    have hroom : ({} : Outline).typeCount.toNat + Section.contentSize sections < 2 ^ 32 := by
      have hzero : ({} : Outline).typeCount.toNat = 0 := rfl
      omega
    rw [foldlM_addSection_eq_error hroom h] at h
    exact absurd h haccepted

end Outline

namespace Section

variable {kind : SectionKind} {sections : List Section} {outline : Outline}

/-- Entries that are read one by one can be no more than their bytes. -/
theorem declared_le_contentSize {α : Type} {item : Reader α} {k : Nat}
    (hitem : Reader.Takes k item) (h : ∀ s ∈ sections, s.id = kind.id →
      ∃ values, (Reader.counted item).whole s.contents = some values) :
    k * declared kind sections ≤ contentSize (ofKind kind sections) := by
  cases hkind : ofKind kind sections with
  | nil =>
    rw [declared_of_nil hkind]
    exact Nat.zero_le _
  | cons s rest =>
    have hs : s ∈ ofKind kind sections := by
      rw [hkind]
      exact List.mem_cons_self
    obtain ⟨hmem, hid⟩ := List.mem_filter.1 hs
    obtain ⟨values, hvalues⟩ := h s hmem (of_decide_eq_true hid)
    have := hitem.length_lt_of_counted hvalues
    rw [declared_of_cons hkind (Outline.whole_readOpaqueEntries hvalues), contentSize_cons]
    omega

theorem declared_types_le (houtline : Outline.ofSections sections = .ok outline) :
    2 * declared .types sections ≤ contentSize (ofKind .types sections) := by
  refine declared_le_contentSize SubType.takes_readGroup fun s hs hid => ?_
  obtain ⟨before, after, hadd⟩ := Outline.addSection_of_mem houtline hs
  rw [Outline.addSection_of_kind hid] at hadd
  obtain ⟨groups, hgroups, -⟩ := Except.bind_eq_ok hadd
  exact ⟨groups, Outline.contentsOf_eq_ok hgroups⟩

theorem declared_code_le (houtline : Outline.ofSections sections = .ok outline) :
    1 * declared .code sections ≤ contentSize (ofKind .code sections) := by
  have htakes : Reader.Takes 1 Outline.readOpaqueBody := Reader.takes_of_consuming
  refine declared_le_contentSize htakes fun s hs hid => ?_
  obtain ⟨before, after, hadd⟩ := Outline.addSection_of_mem houtline hs
  rw [Outline.addSection_of_kind hid] at hadd
  obtain ⟨bodies, hbodies, -⟩ := Except.bind_eq_ok hadd
  exact ⟨bodies, Outline.contentsOf_eq_ok hbodies⟩

theorem declared_lt (houtline : Outline.ofSections sections = .ok outline)
    (hkind : kind ∈ Additions.targets) : declared kind sections < 2 ^ 32 := by
  cases hsections : ofKind kind sections with
  | nil =>
    rw [declared_of_nil hsections]
    decide
  | cons s rest =>
    have hs : s ∈ ofKind kind sections := by
      rw [hsections]
      exact List.mem_cons_self
    obtain ⟨hmem, hid⟩ := List.mem_filter.1 hs
    obtain ⟨count, old, hsize⟩ :=
      Outline.size_of_ofSections houtline hmem (of_decide_eq_true hid) hkind
    rw [declared_of_cons hsections (count?_of_size hsize)]
    exact Leb128.lt_of_unsigned hsize

end Section

namespace Additions

variable (selection : Selection) (symbol : String) (outline : Outline) (sections : List Section)
  (imports : List Import)

/-- How many functions a file has with the accessors. -/
def functionTotal : Nat :=
  Import.count .func imports + Section.declared .functions sections +
    ((exposedGlobals selection outline).map fun exposed => exposed.2.functionCount).sum

/-- The index spaces that hold too many entries: functions, and the exports of a section that there
was before. -/
def Refuses : SectionKind → Prop
  | .functions => 2 ^ 32 ≤ functionTotal selection outline sections imports
  | .exports => functionTotal selection outline sections imports < 2 ^ 32 ∧
    Section.ofKind .exports sections ≠ [] ∧ 0 < planned selection symbol outline .exports ∧
    2 ^ 32 ≤ Section.declared .exports sections + planned selection symbol outline .exports
  | _ => False

variable {selection symbol outline sections imports} {kind other : SectionKind}

theorem Refuses.functions_or_exports
    (h : Refuses selection symbol outline sections imports kind) :
    kind = .functions ∨ kind = .exports := by
  cases kind with
  | functions => exact .inl rfl
  | exports => exact .inr rfl
  | types | code | imports | tables | memories | tags | globals | start | elements | dataCount |
      data => exact h.elim

/-- Functions come first, so one kind at most is refused. -/
theorem Refuses.unique (h : Refuses selection symbol outline sections imports kind)
    (h' : Refuses selection symbol outline sections imports other) : kind = other := by
  rcases h.functions_or_exports with rfl | rfl <;>
    rcases h'.functions_or_exports with rfl | rfl
  · rfl
  · exact absurd h'.1 (Nat.not_lt_of_le h)
  · exact absurd h.1 (Nat.not_lt_of_le h')
  · rfl

end Additions

/-- A file of less than `2 ^ 32` bytes in which no section that receives entries occurs twice. -/
structure Section.Single (bytes : Bytes) (sections : List Section) : Prop where
  read : readModule bytes = .ok sections
  length_lt : bytes.length < 2 ^ 32
  once : ∀ kind ∈ Additions.targets, (ofKind kind sections).length ≤ 1

namespace Section.Single

variable {selection : Selection} {symbol : String} {bytes : Bytes} {sections : List Section}
  {outline : Outline} {additions : Additions} {imports : List Import} {e : InstrumentError}
  (h : Single bytes sections) (houtline : Outline.ofSections sections = .ok outline)

include h

theorem contentSize_lt : contentSize sections + 8 < 2 ^ 32 := by
  have := (of_readModule h.read).2
  have := h.length_lt
  omega

include houtline

theorem ownFunctions_eq : outline.ownFunctions.toNat = declared .functions sections :=
  ownFunctions_eq_declared (h.once .functions (by decide)) houtline

theorem importedFunctions_eq
    (himports : Module.entries? sections .imports Import.read = some imports) :
    outline.importedFunctions.toNat = Import.count .func imports := by
  obtain ⟨imports', himports', hcount, -⟩ := Outline.exists_imports houtline
  rw [himports] at himports'
  cases himports'
  have := h.contentSize_lt
  have := length_le_contentSize Reader.takes_of_consuming himports
  have := contentSize_ofKind_le .imports sections
  have := Import.count_le_length .func imports
  have hlt : Import.count .func imports < 2 ^ 32 := by omega
  rw [hcount]
  exact UInt32.toNat_ofNat_of_lt' hlt

omit h in
/-- Accessor functions are no more than the bytes of the globals. -/
theorem length_accessorFunctions_le : (Additions.accessorFunctions selection outline).length ≤
    contentSize (ofKind .globals sections) := by
  obtain ⟨globals, hglobals, htypes⟩ := Outline.exists_globals houtline
  have hlength : outline.globals.length = globals.length := by
    simpa using congrArg List.length htypes
  have := Additions.length_accessorFunctions_le selection outline
  have := length_le_contentSize Global.takes_read hglobals
  omega

theorem offset_lt (signature : Signature) :
    outline.typeCount.toNat + signature.offset.toNat < 2 ^ 32 := by
  have := (Outline.typeCount_of_foldlM houtline).2
  have := h.contentSize_lt
  have hzero : ({} : Outline).typeCount.toNat = 0 := rfl
  have hoffset : signature.offset.toNat < 3 := by cases signature <;> decide
  omega

theorem functionTotal_eq
    (himports : Module.entries? sections .imports Import.read = some imports) :
    Additions.functionTotal selection outline sections imports =
      outline.importedFunctions.toNat + outline.ownFunctions.toNat +
        (Additions.accessorFunctions selection outline).length := by
  rw [h.importedFunctions_eq houtline himports, h.ownFunctions_eq houtline,
    Additions.length_accessorFunctions, Additions.functionTotal]

/-- The accessors fail to be made just if there are too many functions. -/
theorem ofOutline_eq_error_iff
    (himports : Module.entries? sections .imports Import.read = some imports) :
    Additions.ofOutline selection symbol outline = .error e ↔
      e = .tooManyEntries .functions ∧
      2 ^ 32 ≤ Additions.functionTotal selection outline sections imports := by
  rw [h.functionTotal_eq houtline himports]
  have hreason {e : InstrumentError}
      (herror : Additions.ofOutline selection symbol outline = .error e) :
      e = .tooManyEntries .functions ∧ 2 ^ 32 ≤ outline.importedFunctions.toNat +
        outline.ownFunctions.toNat + (Additions.accessorFunctions selection outline).length := by
    rcases Additions.ofOutline_eq_error herror with hindices | ⟨-, f, -, htype⟩
    · exact hindices
    · exact absurd (h.offset_lt houtline f.signature) (Nat.not_lt_of_le htype)
  refine ⟨hreason, ?_⟩
  rintro ⟨rfl, hle⟩
  cases hresult : Additions.ofOutline selection symbol outline with
  | ok additions =>
    exact absurd hle (Nat.not_le_of_lt (Additions.listed_of_ofOutline hresult).indices_lt)
  | error e => rw [(hreason hresult).1]

/-- Once the accessors are made, only the exports can be too many to be placed. -/
theorem splice_eq_error_iff (hadditions : Additions.ofOutline selection symbol outline = .ok additions)
    (hexports : Additions.planned selection symbol outline .exports < 2 ^ 32) :
    additions.pending.splice outline.hasSection sections = .error e ↔
      e = .tooManyEntries .exports ∧ 2 ^ 32 ≤
        declared .exports sections + Additions.planned selection symbol outline .exports := by
  have hlisted := Additions.listed_of_ofOutline hadditions
  have hcount {kind : SectionKind}
      (hplanned : Additions.planned selection symbol outline kind < 2 ^ 32) :
      (additions.entries kind).count.toNat = Additions.planned selection symbol outline kind := by
    have hsize := hlisted.size_eq kind
    rw [Additions.count_entries (by rwa [hsize]), hsize]
  have hreason {e : InstrumentError}
      (herror : additions.pending.splice outline.hasSection sections = .error e) :
      e = .tooManyEntries .exports ∧ 2 ^ 32 ≤
        declared .exports sections + Additions.planned selection symbol outline .exports := by
    obtain ⟨kind, hplaced⟩ := Pending.splice_eq_error additions.targets_nodup herror
    obtain ⟨hkind, rfl, hle⟩ := Additions.placed_eq_error houtline hplaced
    have hsize := h.contentSize_lt
    have hindices := hlisted.indices_lt
    have hglobals : (Additions.accessorFunctions selection outline).length ≤ _ :=
      length_accessorFunctions_le houtline
    cases kind with
    | types =>
      have hfew := Additions.planned_types_le selection symbol outline
      have := declared_types_le houtline
      have := contentSize_ofKind_le .types sections
      rw [hcount (by omega)] at hle
      omega
    | functions =>
      have hplanned : Additions.planned selection symbol outline .functions =
        (Additions.accessorFunctions selection outline).length := rfl
      rw [hcount (by omega), ← h.ownFunctions_eq houtline] at hle
      omega
    | code =>
      have hplanned : Additions.planned selection symbol outline .code =
        (Additions.accessorFunctions selection outline).length := rfl
      have := declared_code_le houtline
      have := contentSize_ofKind_add_le (show SectionKind.code ≠ .globals by decide) sections
      rw [hcount (by omega)] at hle
      omega
    | exports =>
      rw [hcount hexports] at hle
      exact ⟨rfl, hle⟩
    | imports | tables | memories | tags | globals | start | elements | dataCount | data =>
      exact absurd hkind (by decide)
  refine ⟨hreason, ?_⟩
  rintro ⟨rfl, hle⟩
  cases hresult : additions.pending.splice outline.hasSection sections with
  | ok spliced =>
    have hplaced := (Additions.spliced_of_splice houtline hresult).placed
      (fun s hs => List.mem_map_of_mem hs) .exports
    obtain ⟨hdeclared, hlt, -⟩ := Additions.placed_eq_ok houtline (by decide) hplaced
    rw [hcount hexports] at hdeclared
    omega
  | error e => rw [(hreason hresult).1]

omit h in
/-- A sum that does not fit comes from a section that there is and from exports that are added. -/
theorem refuses_exports_iff
    (hexports : Additions.planned selection symbol outline .exports < 2 ^ 32) :
    Additions.Refuses selection symbol outline sections imports .exports ↔
      Additions.functionTotal selection outline sections imports < 2 ^ 32 ∧ 2 ^ 32 ≤
        declared .exports sections + Additions.planned selection symbol outline .exports := by
  have hdeclared := declared_lt houtline (show SectionKind.exports ∈ Additions.targets by decide)
  constructor
  · rintro ⟨htotal, -, -, hle⟩
    exact ⟨htotal, hle⟩
  · rintro ⟨htotal, hle⟩
    refine ⟨htotal, fun hnone => ?_, by omega, hle⟩
    rw [declared_of_nil hnone] at hle
    omega

/-- The ways in which instrumenting ends. -/
theorem instrument_cases
    (himports : Module.entries? sections .imports Import.read = some imports)
    (hexports : Additions.planned selection symbol outline .exports < 2 ^ 32) :
    (∃ kind, Additions.Refuses selection symbol outline sections imports kind ∧
      instrument selection symbol bytes = .error (.tooManyEntries kind)) ∨
    (∀ kind, ¬Additions.Refuses selection symbol outline sections imports kind) ∧
      ∃ additions spliced, Additions.ofOutline selection symbol outline = .ok additions ∧
        additions.pending.splice outline.hasSection sections = .ok spliced ∧
        instrument selection symbol bytes = if spliced.all Section.fits then
          .ok ⟨Section.encodeModule spliced, additions.exports.toList⟩
        else .error .sectionTooLong := by
  have hinstrument := @instrument_of_outline selection symbol _ _ _ h.read houtline
  have hmade (e : InstrumentError) :=
    @ofOutline_eq_error_iff selection symbol _ _ _ _ e h houtline himports
  cases hadditions : Additions.ofOutline selection symbol outline with
  | error e =>
    obtain ⟨rfl, hle⟩ := (hmade e).1 hadditions
    rw [hadditions] at hinstrument
    exact .inl ⟨.functions, hle, hinstrument⟩
  | ok additions =>
    have htotal : Additions.functionTotal selection outline sections imports < 2 ^ 32 := by
      by_contra hge
      have herror := (hmade _).2 ⟨rfl, Nat.le_of_not_lt hge⟩
      rw [hadditions] at herror
      cases herror
    have hspliced (e : InstrumentError) :=
      @splice_eq_error_iff selection symbol _ _ _ _ e h houtline hadditions hexports
    cases hsplice : additions.pending.splice outline.hasSection sections with
    | error e =>
      obtain ⟨rfl, hle⟩ := (hspliced e).1 hsplice
      refine .inl ⟨.exports, (refuses_exports_iff houtline hexports).2 ⟨htotal, hle⟩, ?_⟩
      rw [hinstrument, hadditions]
      simp only [bind, Except.bind, hsplice]
    | ok spliced =>
      refine .inr ⟨fun kind hrefuses => ?_, additions, spliced, rfl, hsplice,
        instrument_of_splice h.read houtline hadditions hsplice⟩
      rcases hrefuses.functions_or_exports with rfl | rfl
      · exact Nat.not_le_of_lt htotal hrefuses
      · have hle := ((refuses_exports_iff houtline hexports).1 hrefuses).2
        have herror := (hspliced _).2 ⟨rfl, hle⟩
        rw [hsplice] at herror
        cases herror

end Section.Single

/-- A short file in which no section that receives entries occurs twice is refused for its functions,
or else for its exports, just if there are too many of them. It is not refused for its types or its
bodies, and all counts can be read. -/
theorem refused_iff {selection : Selection} {symbol : String} {bytes : Bytes}
    {sections : List Section} (h : Section.Single bytes sections)
    (haccepted : Outline.ofSections sections ≠ .error .malformed) :
    ∃ outline imports, Outline.ofSections sections = .ok outline ∧
      Module.entries? sections .imports Import.read = some imports ∧
      (Additions.planned selection symbol outline .exports < 2 ^ 32 →
        (∀ kind, instrument selection symbol bytes = .error (.tooManyEntries kind) ↔
          Additions.Refuses selection symbol outline sections imports kind) ∧
        instrument selection symbol bytes ≠ .error .malformedCount ∧
        ((∀ kind, ¬Additions.Refuses selection symbol outline sections imports kind) →
          ∃ additions spliced, Additions.ofOutline selection symbol outline = .ok additions ∧
            additions.pending.splice outline.hasSection sections = .ok spliced ∧
            instrument selection symbol bytes = if spliced.all Section.fits then
              .ok ⟨Section.encodeModule spliced, additions.exports.toList⟩
            else .error .sectionTooLong)) := by
  obtain ⟨outline, houtline⟩ := Outline.exists_outline h.read h.length_lt haccepted
  obtain ⟨imports, himports, -⟩ := Outline.exists_imports houtline
  refine ⟨outline, imports, houtline, himports, fun hexports => ?_⟩
  rcases h.instrument_cases houtline himports hexports with
    ⟨refused, hrefuses, hresult⟩ | ⟨hnone, additions, spliced, hmade, hsplice, hresult⟩
  · refine ⟨fun kind => ⟨fun herror => ?_, fun hother => ?_⟩, ?_,
      fun hnone => absurd hrefuses (hnone refused)⟩
    · rw [hresult] at herror
      cases herror
      exact hrefuses
    · rw [hresult, hrefuses.unique hother]
    · rw [hresult]
      rintro ⟨⟩
  · refine ⟨fun kind => ⟨fun herror => ?_, fun hrefuses => absurd hrefuses (hnone kind)⟩, ?_,
      fun _ => ⟨additions, spliced, hmade, hsplice, hresult⟩⟩
    · rw [hresult] at herror
      split at herror <;> cases herror
    · rw [hresult]
      split <;> rintro ⟨⟩

/-- A file with a function, a memory and a global, that declares `2 ^ 32 - 4` exports. -/
def overfullSections : List Section := [
  ⟨3, [1, 0]⟩,
  ⟨5, [1, 0, 1]⟩,
  ⟨6, [1, 0x7f, 1, 0x41, 5, 0x0b]⟩,
  ⟨7, [0xfc, 0xff, 0xff, 0xff, 0x0f]⟩]

def overfullOutline : Outline where
  sectionIds := [3, 5, 6, 7]
  ownFunctions := 1
  memory := some 0
  globals := [⟨0, ⟨.i32, true⟩⟩]

/-- With the memory, the function and two accessors there would be `2 ^ 32` exports. -/
theorem refused_iff_overfull :
    Section.Single (Section.encodeModule overfullSections) overfullSections ∧
    Outline.ofSections overfullSections = .ok overfullOutline ∧
    Additions.planned .all "_" overfullOutline .exports = 4 ∧
    instrument .all "_" (Section.encodeModule overfullSections) =
      .error (.tooManyEntries .exports) := by
  have hsingle : Section.Single (Section.encodeModule overfullSections) overfullSections := {
    read := Section.readModule_encodeModule (by decide +kernel)
    length_lt := by decide +kernel
    once := by decide +kernel }
  have houtline : Outline.ofSections overfullSections = .ok overfullOutline := by decide +kernel
  have himports : Module.entries? overfullSections .imports Import.read = some [] := by
    decide +kernel
  have hplanned : Additions.planned .all "_" overfullOutline .exports = 4 := by decide +kernel
  obtain ⟨outline, imports, houtline', himports', hrefused⟩ :=
    @refused_iff .all "_" _ _ hsingle (by rw [houtline]; rintro ⟨⟩)
  cases houtline.symm.trans houtline'
  cases himports.symm.trans himports'
  refine ⟨hsingle, houtline, hplanned, ((hrefused ?_).1 .exports).2 ⟨?_, ?_, ?_, ?_⟩⟩
  · rw [hplanned]
    decide
  · decide +kernel
  · decide +kernel
  · rw [hplanned]
    decide
  · decide +kernel

end WasmSnapshot
