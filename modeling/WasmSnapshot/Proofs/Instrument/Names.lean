import Mathlib.Data.List.Nodup
import WasmSnapshot.Proofs.Accessor.Symbols
import WasmSnapshot.Proofs.Instrument.AnyOrder
import WasmSnapshot.Proofs.Instrument.Exports

/-! Names of exports, before and after a module is given accessors. No two of the names that are added
are the same, whatever the symbol and however many functions and globals there are, and no name of
the module itself is added once more, unless it is read as that of an accessor. So a file whose
exports have distinct names keeps them distinct under one symbol after another. -/

namespace WasmSnapshot

namespace Outline

variable {outline result : Outline} {s : Section} {sections : List Section}

/-- The globals of one section have different indices, even where these wrap. -/
theorem pairwise_ownGlobals (outline : Outline) {globals : List Global}
    (hlt : globals.length < 2 ^ 32) :
    (outline.ownGlobals globals).Pairwise fun a b => a.index ≠ b.index := by
  have hpositions : globals.zipIdx.Pairwise fun a b => a.2 < b.2 := by
    rw [← List.pairwise_map (f := Prod.snd), List.zipIdx_map_snd]
    exact List.pairwise_lt_range'
  rw [ownGlobals, List.pairwise_map]
  refine hpositions.imp_of_mem ?_
  rintro ⟨a, i⟩ ⟨b, j⟩ ha hb hij heq
  obtain ⟨hj, -⟩ := List.getElem?_eq_some_iff.1 (List.mk_mem_zipIdx_iff_getElem?.1 hb)
  have heq := UInt32.toNat_inj.2 (UInt32.add_right_inj _ |>.1 heq)
  rw [UInt32.toNat_ofNat', UInt32.toNat_ofNat'] at heq
  simp only at hij
  omega

theorem pairwise_globals_of_foldlM (h : sections.foldlM addSection outline = .ok result)
    (honce : outline.globals = [] ∧ (Section.ofKind .globals sections).length ≤ 1 ∨
      (outline.globals.Pairwise fun a b => a.index ≠ b.index) ∧
        Section.ofKind .globals sections = []) :
    result.globals.Pairwise fun a b => a.index ≠ b.index := by
  induction sections generalizing outline with
  | nil =>
    cases h
    rcases honce with ⟨hnone, -⟩ | ⟨hpairwise, -⟩
    · rw [hnone]
      exact List.Pairwise.nil
    · exact hpairwise
  | cons s sections ih =>
    rw [List.foldlM_cons] at h
    obtain ⟨next, hnext, h⟩ := Except.bind_eq_ok h
    apply ih h
    by_cases hid : s.id = SectionKind.globals.id
    · rw [Section.ofKind_cons_self hid, List.length_cons] at honce
      rcases honce with ⟨hnone, hle⟩ | ⟨-, hcons⟩
      · obtain ⟨globals, hwhole, hglobals⟩ := globals_of_addSection hid hnext
        obtain ⟨entries, hsize, -⟩ := Reader.counted_eq_some (Reader.whole_eq_some hwhole)
        rw [hnone, List.nil_append] at hglobals
        refine .inr ⟨?_, List.length_eq_zero_iff.1 (by omega)⟩
        rw [hglobals]
        exact pairwise_ownGlobals outline (Leb128.lt_of_unsigned hsize)
      · cases hcons
    · rw [Section.ofKind_cons_ne hid] at honce
      rwa [(keeps_of_addSection hnext).globals hid]

/-- In a file with one section of globals at most, no two own globals have the same index. -/
theorem pairwise_globals (honce : (Section.ofKind .globals sections).length ≤ 1)
    (h : ofSections sections = .ok outline) :
    outline.globals.Pairwise fun a b => a.index ≠ b.index :=
  pairwise_globals_of_foldlM h (.inl ⟨rfl, honce⟩)

end Outline

namespace Additions

variable {selection : Selection} {symbol : String} {outline : Outline} {additions : Additions}

/-- The accessors that a module with the given outline gets, in the order of their exports. -/
def accessors (selection : Selection) (outline : Outline) : List Accessor :=
  (if selection.memory && outline.memory.isSome then [.memory] else []) ++
    (if selection.table && outline.table.isSome then [.table] else []) ++
    (ownFunctions outline).map .function ++
    (accessorFunctions selection outline).map (·.accessor)

theorem names_exports (h : Listed selection symbol outline additions) :
    additions.exports.toList.map (·.name) =
      (accessors selection outline).map (·.exportName symbol) := by
  rw [h.exports, List.map_append, accessors, List.map_append]
  congr 1
  · rw [itemExports, List.map_append, List.map_append, List.map_append, List.map_append,
      List.map_map, List.map_map]
    congr 1
    · congr 1
      · cases selection.memory <;> cases outline.memory <;> rfl
      · cases selection.table <;> cases outline.table <;> rfl
    · rw [List.map_map, List.map_map]
      rfl
  · have hfirst := congrArg (List.map fun function => function.accessor.exportName symbol)
      (List.zipIdx_map_fst 0 (accessorFunctions selection outline))
    rw [functionExports, List.map_map, List.map_map]
    rw [List.map_map] at hfirst
    exact hfirst

theorem nodup_ownFunctions
    (hlt : outline.importedFunctions.toNat + outline.ownFunctions.toNat < 2 ^ 32) :
    (ownFunctions outline).Nodup := by
  rw [ownFunctions, List.nodup_iff_pairwise_ne, List.pairwise_map]
  refine List.pairwise_lt_range.imp_of_mem ?_
  intro i j hi hj hij heq
  rw [List.mem_range] at hi hj
  have heq := UInt32.toNat_inj.2 ((UInt32.add_right_inj _).1 heq)
  rw [UInt32.toNat_ofNat', UInt32.toNat_ofNat'] at heq
  omega

/-- Globals with different indices have different accessors. -/
theorem nodup_accessorFunctions
    (hglobals : outline.globals.Pairwise fun a b => a.index ≠ b.index) :
    ((accessorFunctions selection outline).map (·.accessor)).Nodup := by
  have hexposed : (exposedGlobals selection outline).Pairwise fun a b => a.1 ≠ b.1 := by
    refine hglobals.filterMap _ fun a b hab => ?_
    have hindex (global : OwnGlobal) (exposed : UInt32 × IntType)
        (h : exposed ∈ (if global.type.isMutable && selection.selectsGlobal global.index then
          (IntType.ofValueType? global.type.value).map (global.index, ·) else none)) :
        exposed.1 = global.index := by
      split at h
      · obtain ⟨type, -, rfl⟩ := Option.map_eq_some_iff.1 h
        rfl
      · cases h
    intro a' ha b' hb
    rw [hindex a a' ha, hindex b b' hb]
    exact hab
  rw [accessorFunctions, List.map_flatMap, List.nodup_flatMap]
  constructor
  · rintro ⟨index, type⟩ -
    cases type <;> simp [IntType.accessorFunctions]
  · refine hexposed.imp ?_
    intro a b hab accessor ha hb
    obtain ⟨f, hf, rfl⟩ := List.mem_map.1 ha
    obtain ⟨g, hg, heq⟩ := List.mem_map.1 hb
    have hsame := congrArg Accessor.global? heq
    rw [IntType.global?_of_mem hf, IntType.global?_of_mem hg] at hsame
    exact hab (Option.some.inj hsame).symm

theorem nodup_accessors
    (hlt : outline.importedFunctions.toNat + outline.ownFunctions.toNat < 2 ^ 32)
    (hglobals : outline.globals.Pairwise fun a b => a.index ≠ b.index) :
    (accessors selection outline).Nodup := by
  have hfunctions : ((ownFunctions outline).map Accessor.function).Nodup :=
    (nodup_ownFunctions hlt).map fun _ _ heq => Accessor.function.inj heq
  have hglobal : ∀ accessor ∈ (accessorFunctions selection outline).map (·.accessor),
      accessor.global?.isSome = true := by
    intro accessor hmem
    obtain ⟨function, hfunction, rfl⟩ := List.mem_map.1 hmem
    obtain ⟨index, type, -, hfunction⟩ := mem_accessorFunctions.1 hfunction
    rw [IntType.global?_of_mem hfunction]
    rfl
  rw [accessors, List.nodup_append, List.nodup_append, List.nodup_append]
  refine ⟨⟨⟨?_, ?_, ?_⟩, hfunctions, ?_⟩, nodup_accessorFunctions hglobals, ?_⟩
  · split <;> simp
  · split <;> simp
  · intro a ha b hb
    split at ha <;> split at hb <;> simp_all
  · intro a ha b hb heq
    obtain ⟨index, -, rfl⟩ := List.mem_map.1 hb
    subst heq
    split at ha <;> split at ha <;> simp at ha
  · intro a ha b hb heq
    subst heq
    have hsome := hglobal a hb
    simp only [List.mem_append, List.mem_map] at ha
    rcases ha with (ha | ha) | ⟨index, -, rfl⟩
    · split at ha
      · cases List.mem_singleton.1 ha
        cases hsome
      · cases ha
    · split at ha
      · cases List.mem_singleton.1 ha
        cases hsome
      · cases ha
    · cases hsome

end Additions

namespace Module

variable {α β : Type} {kind : SectionKind} {item : Reader β} {s : Section}
  {sections spliced : List Section}

theorem entries?_ofKind : entries? (Section.ofKind kind sections) kind item =
    entries? sections kind item :=
  entries?_congr (by rw [Section.ofKind, Section.ofKind, List.filter_filter]; simp)

theorem entries?_cons_eq_some (hid : s.id = kind.id) {values : List β} :
    entries? (s :: sections) kind item = some values ↔ ∃ first others,
      (Reader.counted item).whole s.contents = some first ∧
      entries? sections kind item = some others ∧ values = first ++ others := by
  simp only [entries?, List.filter_cons, hid, decide_true, if_true, List.mapM_cons,
    Option.bind_eq_bind, Option.bind_eq_some_iff, Option.pure_def, Option.some.injEq]
  constructor
  · rintro ⟨parts, ⟨first, hfirst, others, hothers, rfl⟩, rfl⟩
    exact ⟨first, others.flatten, hfirst, ⟨others, hothers, rfl⟩, List.flatten_cons⟩
  · rintro ⟨first, others, hfirst, ⟨parts, hparts, rfl⟩, rfl⟩
    exact ⟨first :: parts, ⟨first, hfirst, parts, hparts, rfl⟩, List.flatten_cons⟩

/-- Of several sections of a kind the first one gives back the entries that were placed, after its
own. -/
theorem entries?_perm_of_placed [Reader.Extensible item] {encode : α → Bytes} {decode : α → β}
    {values : List α} {old : List β} (hlength : values.length < 2 ^ 32)
    (h : ∀ v ∈ values, Reader.Reads item (encode v) (decode v))
    (hold : entries? sections kind item = some old)
    (hplaced : Entries.placed kind (someEntries (.ofList encode values))
      (Section.ofKind kind sections) = .ok (Section.ofKind kind spliced)) :
    ∃ new, entries? spliced kind item = some new ∧ new.Perm (old ++ values.map decode) := by
  rw [someEntries_ofList hlength] at hplaced
  by_cases hvalues : values = []
  · rw [if_pos hvalues] at hplaced
    refine ⟨old, ?_, ?_⟩
    · rw [entries?_congr (Except.ok.inj hplaced).symm, hold]
    · rw [hvalues, List.map_nil, List.append_nil]
  · rw [if_neg hvalues] at hplaced
    rw [← entries?_ofKind] at hold
    cases hsections : Section.ofKind kind sections with
    | nil =>
      rw [hsections] at hplaced hold
      cases hold
      refine ⟨values.map decode, ?_, List.Perm.refl _⟩
      rw [entries?_of_singleton (Except.ok.inj hplaced).symm, Entries.whole_contents hlength h]
    | cons s rest =>
      have hid : s.id = kind.id := by
        have hs : s ∈ Section.ofKind kind sections := by
          rw [hsections]
          exact List.mem_cons_self
        exact of_decide_eq_true (List.mem_filter.1 hs).2
      rw [hsections] at hplaced hold
      obtain ⟨contents, hcontents, hplaced⟩ := Except.bind_eq_ok hplaced
      obtain ⟨first, others, hfirst, hothers, rfl⟩ := (entries?_cons_eq_some hid).1 hold
      refine ⟨(first ++ values.map decode) ++ others, ?_, ?_⟩
      · rw [← entries?_ofKind, ← Except.ok.inj hplaced]
        exact (entries?_cons_eq_some (s := ⟨s.id, contents⟩) hid).2
          ⟨_, others, Entries.whole_appendTo hlength h hfirst hcontents, hothers, rfl⟩
      · rw [List.append_assoc, List.append_assoc]
        exact List.perm_append_comm.append_left first

end Module

/-- Every export takes a byte or more. -/
theorem Export.length_le_flatMap_encode (exports : List Export) :
    exports.length ≤ (exports.flatMap encode).length := by
  induction exports with
  | nil => exact Nat.le_refl 0
  | cons e exports ih =>
    rw [List.flatMap_cons, List.length_append, List.length_cons, encode, List.length_append,
      List.length_cons]
    omega

namespace Instrumented.Built

variable {selection : Selection} {symbol : String} {bytes : Bytes} {sections spliced : List Section}
  {outline : Outline} {additions : Additions} {out : Instrumented}

theorem placed_kind (h : Built selection symbol bytes sections outline additions spliced out)
    (kind : SectionKind) : Entries.placed kind (additions.pending.lookup kind)
      (Section.ofKind kind sections) = .ok (Section.ofKind kind spliced) :=
  h.placed.placed (fun _ hs => List.mem_map_of_mem hs) kind

/-- Exports that are placed at all stand in a section, so they are few and have short names. -/
theorem exports_fit (h : Built selection symbol bytes sections outline additions spliced out)
    (hsome : ¬(additions.entries .exports).isEmpty) : out.exports.length < 2 ^ 32 ∧
      ∀ e ∈ out.exports, e.name.utf8ByteSize < 2 ^ 32 := by
  have hplaced := h.placed_kind .exports
  rw [Additions.lookup_pending, if_pos (by decide), Module.someEntries, if_neg hsome] at hplaced
  obtain ⟨s, hs, hle⟩ := Entries.length_le_of_placed hplaced
  have hlt := Section.length_lt_of_readModule h.read s (List.mem_of_mem_filter hs)
  rw [Additions.entries, ← h.exports, Entries.ofList] at hle
  have hsize : ∀ e ∈ out.exports,
      e.encode.length ≤ (out.exports.flatMap Export.encode).length := by
    intro e he
    obtain ⟨before, after, heq⟩ := List.append_of_mem he
    simp only [heq, List.flatMap_append, List.flatMap_cons, List.length_append]
    omega
  constructor
  · have hcount := Export.length_le_flatMap_encode out.exports
    simp only at hle
    omega
  · intro e he
    have hname := e.utf8ByteSize_le_length_encode
    have := hsize e he
    simp only at hle
    omega

/-- What a file exports: its own exports, in their sections, and those that were added. These are all,
or none, if they are so many that they are not counted. -/
theorem exports_decoded (h : Built selection symbol bytes sections outline additions spliced out)
    {old : List ExportEntry} (hold : Module.entries? sections .exports ExportEntry.read = some old) :
    ∃ new added, Module.entries? spliced .exports ExportEntry.read = some new ∧
      new.Perm (old ++ added) ∧ added.Sublist (out.exports.map Export.entry) := by
  have hplaced := h.placed_kind .exports
  rw [Additions.lookup_pending, if_pos (by decide)] at hplaced
  by_cases hempty : (additions.entries .exports).isEmpty
  · rw [Module.someEntries, if_pos hempty] at hplaced
    refine ⟨old, [], ?_, ?_, List.nil_sublist _⟩
    · rw [Module.entries?_congr (Except.ok.inj hplaced).symm, hold]
    · rw [List.append_nil]
  · obtain ⟨hcount, hnames⟩ := h.exports_fit hempty
    rw [Additions.entries, ← h.exports] at hplaced
    obtain ⟨new, hnew, hperm⟩ := Module.entries?_perm_of_placed hcount
      (fun e he => Export.reads_entry (hnames e he)) hold hplaced
    exact ⟨new, _, hnew, hperm, List.Sublist.refl _⟩

end Instrumented.Built

/-! ### One symbol after another -/

/-- The names of all exports of a file as they are written, if its sections hold as many exports as
they announce. -/
def exportNames? (bytes : Bytes) : Option (List Bytes) := do
  let sections ← (Section.readModule bytes).toOption
  let exports ← Module.entries? sections .exports ExportEntry.read
  pure (exports.map (·.name))

/-- Gives a module accessors under several symbols, one after the other. -/
def instrumentAll (passes : List (Selection × String)) (bytes : Bytes) :
    Except InstrumentError Bytes :=
  passes.foldlM (fun bytes (selection, symbol) => instrumentedBytes selection symbol bytes) bytes

/-- None of the names is read as that of an accessor under the symbol. -/
def Accessor.Absent (symbol : String) (names : List Bytes) : Prop :=
  ∀ name : String, name.toUTF8.data.toList ∈ names → ofExportName? symbol name = none

theorem Name.toList_toUTF8_injective {a b : String}
    (h : a.toUTF8.data.toList = b.toUTF8.data.toList) : a = b := by
  have hbytes : a.toUTF8 = b.toUTF8 := ByteArray.ext (Array.toList_inj.1 h)
  have ha := Name.fromUTF8?_toUTF8 a
  rw [hbytes, Name.fromUTF8?_toUTF8] at ha
  exact (Option.some.inj ha).symm

/-- A file that can be given accessors under each of the symbols: its globals are in one section, and
its exports have distinct names, none of which is that of such an accessor. -/
structure Unclaimed (symbols : List String) (bytes : Bytes) : Prop where
  once : ∃ sections, Section.readModule bytes = .ok sections ∧
    (Section.ofKind .globals sections).length ≤ 1
  names : ∃ names, exportNames? bytes = some names ∧ names.Nodup ∧
    ∀ symbol ∈ symbols, Accessor.Absent symbol names

theorem exportNames?_eq_some {bytes : Bytes} {sections : List Section} {names : List Bytes}
    (hread : Section.readModule bytes = .ok sections) : exportNames? bytes = some names ↔
      ∃ exports, Module.entries? sections .exports ExportEntry.read = some exports ∧
        names = exports.map (·.name) := by
  simp only [exportNames?, hread, Except.toOption, Option.bind_eq_bind, Option.bind_some,
    Option.bind_eq_some_iff, Option.pure_def, Option.some.injEq]
  exact exists_congr fun exports => and_congr_right fun _ => eq_comm

namespace Instrumented.Built

variable {selection : Selection} {symbol : String} {bytes : Bytes} {sections spliced : List Section}
  {outline : Outline} {additions : Additions} {out : Instrumented}

theorem names_exports (h : Built selection symbol bytes sections outline additions spliced out) :
    out.exports.map (·.name) =
      (Additions.accessors selection outline).map (·.exportName symbol) := by
  rw [h.exports]
  exact Additions.names_exports (Additions.listed_of_ofOutline h.added)

theorem nodup_names (h : Built selection symbol bytes sections outline additions spliced out)
    (honce : (Section.ofKind .globals sections).length ≤ 1) :
    (out.exports.map (·.name)).Nodup := by
  have hlisted := Additions.listed_of_ofOutline h.added
  have hlt := hlisted.indices_lt
  rw [h.names_exports]
  refine List.Nodup.map (fun _ _ => Accessor.exportName_injective) ?_
  exact Additions.nodup_accessors (by omega) (Outline.pairwise_globals honce h.outlined)

theorem name_of_mem (h : Built selection symbol bytes sections outline additions spliced out)
    {entry : ExportEntry} (hentry : entry ∈ out.exports.map Export.entry) :
    ∃ accessor : Accessor, entry.name = (accessor.exportName symbol).toUTF8.data.toList := by
  obtain ⟨e, he, rfl⟩ := List.mem_map.1 hentry
  have hname : e.name ∈ out.exports.map (·.name) := List.mem_map_of_mem he
  rw [h.names_exports] at hname
  obtain ⟨accessor, -, heq⟩ := List.mem_map.1 hname
  exact ⟨accessor, by rw [heq]; rfl⟩

/-- Past one symbol, the file can be given accessors under the others. -/
theorem unclaimed (h : Built selection symbol bytes sections outline additions spliced out)
    {symbols : List String} (hsymbol : symbol ∉ symbols)
    (hunclaimed : Unclaimed (symbol :: symbols) bytes) : Unclaimed symbols out.bytes := by
  obtain ⟨sections', hread, honce⟩ := hunclaimed.once
  obtain rfl : sections' = sections := Except.ok.inj (hread.symm.trans h.input)
  obtain ⟨names, hnames, hnodup, habsent⟩ := hunclaimed.names
  obtain ⟨old, hold, rfl⟩ := (exportNames?_eq_some hread).1 hnames
  obtain ⟨new, added, hnew, hperm, hsublist⟩ := h.exports_decoded hold
  have hadded {name : Bytes} (hmem : name ∈ added.map (·.name)) : ∃ accessor : Accessor,
      name = (accessor.exportName symbol).toUTF8.data.toList := by
    obtain ⟨entry, hentry, rfl⟩ := List.mem_map.1 hmem
    exact h.name_of_mem (hsublist.subset hentry)
  constructor
  · refine ⟨spliced, h.read, ?_⟩
    have hplaced := h.placed_kind .globals
    rw [Additions.lookup_pending, if_neg (by decide)] at hplaced
    rwa [← Except.ok.inj hplaced]
  · refine ⟨_, (exportNames?_eq_some h.read).2 ⟨new, hnew, rfl⟩, ?_, ?_⟩
    · rw [(hperm.map _).nodup_iff, List.map_append, List.nodup_append]
      refine ⟨hnodup, ?_, ?_⟩
      · have hall : ((out.exports.map Export.entry).map (·.name)).Nodup := by
          have hnames := (h.nodup_names honce).map fun _ _ => Name.toList_toUTF8_injective
          rwa [List.map_map] at hnames ⊢
        exact hall.sublist (hsublist.map _)
      · intro name hname other hother heq
        subst heq
        obtain ⟨accessor, rfl⟩ := hadded hother
        have hnone := habsent symbol List.mem_cons_self _ hname
        rw [Accessor.ofExportName?_exportName] at hnone
        cases hnone
    · intro other hother name hname
      rw [(hperm.map _).mem_iff, List.map_append, List.mem_append] at hname
      rcases hname with hname | hname
      · exact habsent other (List.mem_cons_of_mem _ hother) name hname
      · obtain ⟨accessor, heq⟩ := hadded hname
        rw [Name.toList_toUTF8_injective heq]
        refine Accessor.ofExportName?_of_ne ?_ accessor
        rintro rfl
        exact hsymbol hother

end Instrumented.Built

theorem instrumentedBytes_eq_ok {selection : Selection} {symbol : String} {bytes last : Bytes} :
    instrumentedBytes selection symbol bytes = .ok last ↔
      ∃ out, instrument selection symbol bytes = .ok out ∧ out.bytes = last := by
  constructor
  · intro h
    obtain ⟨out, hout, h⟩ := Except.bind_eq_ok h
    exact ⟨out, hout, Except.ok.inj h⟩
  · rintro ⟨out, hout, rfl⟩
    rw [instrumentedBytes, hout]
    rfl

/-- Whatever is selected, each symbol in turn leaves the file to those that come after it. -/
theorem unclaimed_of_instrumentAll {passes : List (Selection × String)} {bytes last : Bytes}
    (hnodup : (passes.map (·.2)).Nodup) (hunclaimed : Unclaimed (passes.map (·.2)) bytes)
    (h : instrumentAll passes bytes = .ok last) : Unclaimed [] last := by
  induction passes generalizing bytes with
  | nil =>
    cases h
    exact hunclaimed
  | cons pass passes ih =>
    obtain ⟨selection, symbol⟩ := pass
    obtain ⟨hsymbol, hnodup⟩ := List.nodup_cons.1 hnodup
    obtain ⟨next, hnext, h⟩ := Except.bind_eq_ok h
    obtain ⟨out, hout, rfl⟩ := instrumentedBytes_eq_ok.1 hnext
    obtain ⟨sections, outline, additions, spliced, hbuilt⟩ := built_of_instrument hout
    exact ih hnodup (hbuilt.unclaimed hsymbol hunclaimed) h

/-- The exports that are added bear the names of accessors, all of them different. Where the exports
of the module have names of their own, too, different and none of them an accessor's, all names stay
different, also when the output is given accessors under other symbols again. -/
theorem exportNames_distinct {selection : Selection} {symbol : String} {bytes : Bytes}
    {sections : List Section} {out : Instrumented}
    (hread : Section.readModule bytes = .ok sections)
    (honce : (Section.ofKind .globals sections).length ≤ 1)
    (h : instrument selection symbol bytes = .ok out) :
    ∃ outline, Outline.ofSections sections = .ok outline ∧
      out.exports.map (·.name) =
        (Additions.accessors selection outline).map (·.exportName symbol) ∧
      out.exports.map (fun e => Accessor.ofExportName? symbol e.name) =
        (Additions.accessors selection outline).map some ∧
      (out.exports.map (·.name)).Nodup ∧
      ∀ names, exportNames? bytes = some names → names.Nodup → Accessor.Absent symbol names →
        (∃ named, exportNames? out.bytes = some named ∧ named.Nodup) ∧
        ∀ passes last, (symbol :: passes.map (·.2)).Nodup →
          (∀ pass ∈ passes, Accessor.Absent pass.2 names) →
          instrumentAll passes out.bytes = .ok last →
          ∃ named, exportNames? last = some named ∧ named.Nodup := by
  obtain ⟨sections', outline, additions, spliced, hbuilt⟩ := built_of_instrument h
  obtain rfl : sections = sections' := Except.ok.inj (hread.symm.trans hbuilt.input)
  refine ⟨outline, hbuilt.outlined, hbuilt.names_exports, ?_, hbuilt.nodup_names honce, ?_⟩
  · have hread := congrArg (List.map (Accessor.ofExportName? symbol)) hbuilt.names_exports
    rw [List.map_map, List.map_map] at hread
    refine hread.trans (List.map_congr_left fun accessor _ => ?_)
    exact Accessor.ofExportName?_exportName symbol accessor
  · intro names hnames hnodup habsent
    have hout {symbols : List String} (hsymbol : symbol ∉ symbols)
        (hothers : ∀ other ∈ symbols, Accessor.Absent other names) :
        Unclaimed symbols out.bytes := by
      refine hbuilt.unclaimed hsymbol ⟨⟨sections, hread, honce⟩, names, hnames, hnodup, ?_⟩
      exact List.forall_mem_cons.2 ⟨habsent, hothers⟩
    constructor
    · obtain ⟨named, hnamed, hdistinct, -⟩ :=
        (hout (List.not_mem_nil) (List.forall_mem_nil _)).names
      exact ⟨named, hnamed, hdistinct⟩
    · intro passes last hsymbols hothers hlast
      obtain ⟨hsymbol, hsymbols⟩ := List.nodup_cons.1 hsymbols
      have hunclaimed := hout hsymbol (List.forall_mem_map.2 hothers)
      obtain ⟨named, hnamed, hdistinct, -⟩ :=
        (unclaimed_of_instrumentAll hsymbols hunclaimed hlast).names
      exact ⟨named, hnamed, hdistinct⟩

/-- A module with an item of each kind. It exports its memory under a name that looks like those of
accessors under two symbols, but is neither. -/
def lookalikeSections : List Section := [
  ⟨1, [1, 0x60, 0, 0]⟩,
  ⟨3, [1, 0]⟩,
  ⟨4, [1, 0x70, 0, 1]⟩,
  ⟨5, [1, 0, 1]⟩,
  ⟨6, [2, 0x7f, 1, 0x41, 5, 0x0b, 0x7e, 1, 0x42, 7, 0x0b]⟩,
  ⟨7, 1 :: Name.encode "@_memory" ++ [2, 0]⟩,
  ⟨10, [1, 2, 0, 0x0b]⟩]

theorem absent_lookalike {symbol : String}
    (h : Accessor.ofExportName? symbol "@_memory" = none) :
    Accessor.Absent symbol ["@_memory".toUTF8.data.toList] := by
  intro name hname
  rw [Name.toList_toUTF8_injective (List.mem_singleton.1 hname)]
  exact h

theorem exportNames_distinct_lookalike : ∃ out last,
    Section.readModule (Section.encodeModule lookalikeSections) = .ok lookalikeSections ∧
    (Section.ofKind .globals lookalikeSections).length ≤ 1 ∧
    instrument .all "_" (Section.encodeModule lookalikeSections) = .ok out ∧
    exportNames? (Section.encodeModule lookalikeSections) =
      some ["@_memory".toUTF8.data.toList] ∧
    instrumentAll [(.all, "@")] out.bytes = .ok last ∧
    (out.exports.map (·.name)).Nodup ∧
    (∃ named, exportNames? out.bytes = some named ∧ named.Nodup) ∧
    ∃ named, exportNames? last = some named ∧ named.Nodup := by
  have hread : Section.readModule (Section.encodeModule lookalikeSections) = .ok lookalikeSections :=
    Section.readModule_encodeModule (by decide +kernel)
  have honce : (Section.ofKind .globals lookalikeSections).length ≤ 1 := by decide
  have hnames : exportNames? (Section.encodeModule lookalikeSections) =
      some ["@_memory".toUTF8.data.toList] := by decide +kernel
  have htwice : (do
      let out ← (instrument .all "_" (Section.encodeModule lookalikeSections)).toOption
      (instrumentAll [(.all, "@")] out.bytes).toOption).isSome = true := by decide +kernel
  cases h : instrument .all "_" (Section.encodeModule lookalikeSections) with
  | error e =>
    rw [h] at htwice
    cases htwice
  | ok out =>
    cases hlast : instrumentAll [(.all, "@")] out.bytes with
    | error e =>
      simp [h, hlast, Except.toOption] at htwice
    | ok last =>
      obtain ⟨outline, -, -, -, hnodup, hothers⟩ := exportNames_distinct hread honce h
      obtain ⟨honly, hpasses⟩ := hothers _ hnames (List.nodup_singleton _)
        (absent_lookalike (by decide +kernel))
      refine ⟨out, last, hread, honce, rfl, hnames, hlast, hnodup, honly, ?_⟩
      refine hpasses _ last (by decide) ?_ hlast
      exact List.forall_mem_singleton.2 (absent_lookalike (by decide +kernel))

end WasmSnapshot
