import WasmSnapshot.Proofs.Instrument.Additions
import WasmSnapshot.Proofs.Instrument.Spliced
import WasmSnapshot.Proofs.Module.Size

/-! What instrumenting a module makes of its sections. The output is read back section by section;
types, type indices, exports and bodies have the added entries after the old ones, and the sections
of all other kinds are those of the module. -/

namespace WasmSnapshot

variable {selection : Selection} {symbol : String} {bytes : Bytes} {sections spliced : List Section}
  {outline : Outline} {additions : Additions} {out : Instrumented}

theorem Additions.placeable (h : Outline.ofSections sections = .ok outline) (additions : Additions) :
    Pending.Placeable outline.hasSection additions.pending sections where
  nodup := additions.targets_nodup
  present_iff target _ := Outline.hasSection_iff h target

/-- The steps that led to an instrumented module, whatever the order of its sections. -/
structure Instrumented.Built (selection : Selection) (symbol : String) (bytes : Bytes)
    (sections : List Section) (outline : Outline) (additions : Additions) (spliced : List Section)
    (out : Instrumented) : Prop where
  input : Section.readModule bytes = .ok sections
  outlined : Outline.ofSections sections = .ok outline
  added : Additions.ofOutline selection symbol outline = .ok additions
  splices : additions.pending.splice outline.hasSection sections = .ok spliced
  placed : Pending.Spliced (sections.map (·.id)) additions.pending sections spliced
  read : Section.readModule out.bytes = .ok spliced
  exports : out.exports = additions.exports.toList

theorem Additions.spliced_of_splice (houtline : Outline.ofSections sections = .ok outline)
    (hsplice : additions.pending.splice outline.hasSection sections = .ok spliced) :
    Pending.Spliced (sections.map (·.id)) additions.pending sections spliced := by
  refine Pending.spliced_of_splice (fun kind => ?_) (Additions.placeable houtline additions) hsplice
  rw [Outline.hasSection_iff houtline, List.mem_map]

/-- Spliced sections are read back, if they can be written. -/
theorem Additions.read_of_splice (hread : Section.readModule bytes = .ok sections)
    (houtline : Outline.ofSections sections = .ok outline)
    (hsplice : additions.pending.splice outline.hasSection sections = .ok spliced)
    (hfits : spliced.all Section.fits = true) :
    Section.readModule (Section.encodeModule spliced) = .ok spliced := by
  have hids := (Additions.spliced_of_splice houtline hsplice).id_lt (Section.of_readModule hread).1
  rw [List.all_eq_true] at hfits
  exact Section.readModule_encodeModule fun s hs => ⟨hids s hs, hfits s hs⟩

/-- Once the sections are spliced, writing them is all that is left. -/
theorem instrument_of_splice (hread : Section.readModule bytes = .ok sections)
    (houtline : Outline.ofSections sections = .ok outline)
    (hadditions : Additions.ofOutline selection symbol outline = .ok additions)
    (hsplice : additions.pending.splice outline.hasSection sections = .ok spliced) :
    instrument selection symbol bytes = if spliced.all Section.fits then
      .ok ⟨Section.encodeModule spliced, additions.exports.toList⟩ else .error .sectionTooLong := by
  simp only [instrument, hread, houtline, hadditions, hsplice, bind, Except.bind]
  rfl

theorem built_of_instrument (h : instrument selection symbol bytes = .ok out) :
    ∃ sections outline additions spliced,
      Instrumented.Built selection symbol bytes sections outline additions spliced out := by
  unfold instrument at h
  obtain ⟨sections, hsections, h⟩ := Except.bind_eq_ok h
  obtain ⟨outline, houtline, h⟩ := Except.bind_eq_ok h
  obtain ⟨additions, hadditions, h⟩ := Except.bind_eq_ok h
  obtain ⟨spliced, hsplice, h⟩ := Except.bind_eq_ok h
  split at h
  · next hfits =>
    cases h
    exact ⟨sections, outline, additions, spliced, hsections, houtline, hadditions, hsplice,
      Additions.spliced_of_splice houtline hsplice,
      Additions.read_of_splice hsections houtline hsplice hfits, rfl⟩
  · cases h

/-- A section is made for each kind that has something to be added and that the file has no section
of. -/
theorem Instrumented.Built.created_perm_entries
    (h : Built selection symbol bytes sections outline additions spliced out) :
    (Section.created (sections.map (·.id)) spliced).Perm
      ((Additions.targets.filter fun kind =>
        !(additions.entries kind).isEmpty && !(sections.map (·.id)).contains kind.id).map fun kind =>
          ⟨kind.id, (additions.entries kind).contents⟩) := by
  have hids : ∀ s ∈ sections, s.id ∈ sections.map (·.id) := fun s hs => List.mem_map_of_mem hs
  have hperm := h.placed.created_perm additions.targets_nodup hids
  rwa [additions.newSections_pending fun kind => !(sections.map (·.id)).contains kind.id] at hperm

/-- An instrumented module: the outline that was taken, the additions that were made, and the
sections of the output. -/
structure Instrumented.Made (selection : Selection) (symbol : String) (sections : List Section)
    (outline : Outline) (additions : Additions) (spliced : List Section) (out : Instrumented) :
    Prop where
  follows : outline.Follows sections
  listed : Additions.Listed selection symbol outline additions
  read : Section.readModule out.bytes = .ok spliced
  exports : out.exports = additions.exports.toList
  placed (kind : SectionKind) : Entries.placed kind (additions.pending.lookup kind)
    (Section.ofKind kind sections) = .ok (Section.ofKind kind spliced)

theorem made_of_instrument (hread : Section.readModule bytes = .ok sections)
    (hordered : Section.Ordered sections) (h : instrument selection symbol bytes = .ok out) :
    ∃ outline additions spliced,
      Instrumented.Made selection symbol sections outline additions spliced out := by
  obtain ⟨sections', outline, additions, spliced, hbuilt⟩ := built_of_instrument h
  obtain rfl : sections = sections' := Except.ok.inj (hread.symm.trans hbuilt.input)
  exact ⟨outline, additions, spliced, {
    follows := Outline.follows_of_ofSections hordered hbuilt.outlined
    listed := Additions.listed_of_ofOutline hbuilt.added
    read := hbuilt.read
    exports := hbuilt.exports
    placed := hbuilt.placed.placed fun s hs => List.mem_map_of_mem hs }⟩

theorem Import.count_le_length (kind : ExternKind) (imports : List Import) :
    Import.count kind imports ≤ imports.length := List.countP_le_length

/-- The imports of an outline are counted without overflow. -/
structure Outline.CountsImports (outline : Outline) (imports : List Import) : Prop where
  functions : outline.importedFunctions.toNat = Import.count .func imports
  tables : outline.importedTables.toNat = Import.count .table imports
  memories : outline.importedMemories.toNat = Import.count .memory imports
  globals : outline.importedGlobals.toNat = Import.count .global imports

theorem Outline.Follows.countsImports (h : outline.Follows sections)
    (hframed : Section.Framed bytes sections) {imports : List Import}
    (himports : Module.entries? sections .imports Import.read = some imports) :
    outline.CountsImports imports := by
  obtain ⟨imports', himports', hfunctions, htables, hmemories, hglobals⟩ := h.tells .imports
  rw [himports] at himports'
  cases himports'
  have hlt (kind : ExternKind) : Import.count kind imports < 2 ^ 32 := by
    have := hframed.contentSize_lt
    have := Section.length_le_contentSize Reader.takes_of_consuming himports
    have := Section.contentSize_ofKind_le .imports sections
    have := Import.count_le_length kind imports
    omega
  exact {
    functions := by rw [hfunctions]; exact UInt32.toNat_ofNat_of_lt' (hlt _)
    tables := by rw [htables]; exact UInt32.toNat_ofNat_of_lt' (hlt _)
    memories := by rw [hmemories]; exact UInt32.toNat_ofNat_of_lt' (hlt _)
    globals := by rw [hglobals]; exact UInt32.toNat_ofNat_of_lt' (hlt _) }

theorem Signature.composites_flatten (signatures : List Signature) :
    (signatures.map fun s => [(⟨[], false, .func s.type⟩ : SubType)]).flatten.map (·.composite) =
      signatures.map fun s => CompositeType.func s.type := by
  induction signatures with
  | nil => rfl
  | cons s signatures ih => rw [List.map_cons, List.flatten_cons, List.map_append, ih]; rfl

/-- The integer type of the global at an index, if it is one that the module defines, that can be set
and that is selected. -/
def Selection.exposed? (selection : Selection) (imports : List Import) (globals : List Global)
    (index : UInt32) : Option IntType := do
  let imported := Import.count .global imports
  guard (imported ≤ index.toNat)
  let global ← globals[index.toNat - imported]?
  guard (global.type.isMutable && selection.selectsGlobal index)
  IntType.ofValueType? global.type.value

theorem Selection.exposed?_eq_some {imports : List Import} {globals : List Global} {index : UInt32}
    {type : IntType} : selection.exposed? imports globals index = some type ↔
      Import.count .global imports ≤ index.toNat ∧
      ∃ global, globals[index.toNat - Import.count .global imports]? = some global ∧
        (global.type.isMutable && selection.selectsGlobal index) = true ∧
        IntType.ofValueType? global.type.value = some type := by
  simp [exposed?, Option.bind_eq_some_iff, guard, and_assoc]

/-- The globals that get accessors are those that are exposed. -/
theorem Additions.mem_exposedGlobals {imports : List Import} {globals : List Global}
    (hcounts : outline.CountsImports imports) (hown : outline.globals = outline.ownGlobals globals)
    (hlt : imports.length + 3 * globals.length < 2 ^ 32) {index : UInt32} {type : IntType} :
    (index, type) ∈ exposedGlobals selection outline ↔
      selection.exposed? imports globals index = some type := by
  have hcount := Import.count_le_length .global imports
  have hindex {position : Nat} (hposition : position < globals.length) :
      (outline.importedGlobals + UInt32.ofNat position).toNat =
        Import.count .global imports + position := by
    rw [UInt32.toNat_add, UInt32.toNat_ofNat', hcounts.globals]
    omega
  rw [Selection.exposed?_eq_some]
  simp only [exposedGlobals, hown, Outline.ownGlobals, List.mem_filterMap, List.mem_map,
    Prod.exists, List.mem_zipIdx_iff_getElem?]
  constructor
  · rintro ⟨own, ⟨global, position, hget, rfl⟩, h⟩
    obtain ⟨hposition, -⟩ := List.getElem?_eq_some_iff.1 hget
    split at h
    · next hexposed =>
      obtain ⟨type', htype, heq⟩ := Option.map_eq_some_iff.1 h
      cases heq
      rw [hindex hposition, Nat.add_sub_cancel_left]
      exact ⟨Nat.le_add_right _ _, global, hget, hexposed, htype⟩
    · cases h
  · rintro ⟨hle, global, hget, hexposed, htype⟩
    obtain ⟨hposition, -⟩ := List.getElem?_eq_some_iff.1 hget
    have heq : outline.importedGlobals +
        UInt32.ofNat (index.toNat - Import.count .global imports) = index := by
      rw [← UInt32.toNat_inj, hindex hposition]
      omega
    refine ⟨⟨index, global.type⟩, ⟨global, _, hget, by rw [heq]⟩, ?_⟩
    rw [if_pos hexposed, htype]
    rfl

namespace Instrumented.Made

variable {α : Type} (h : Made selection symbol sections outline additions spliced out)

include h

/-- Sections of the kinds that receive nothing. -/
theorem ofKind_eq (kind : SectionKind) (hkind : kind ∉ Additions.targets) :
    Section.ofKind kind spliced = Section.ofKind kind sections := by
  have hplaced := h.placed kind
  rw [Additions.lookup_pending, if_neg hkind] at hplaced
  exact (Except.ok.inj hplaced).symm

theorem entries?_eq (kind : SectionKind) (hkind : kind ∉ Additions.targets) (item : Reader α) :
    Module.entries? spliced kind item = Module.entries? sections kind item :=
  Module.entries?_congr (h.ofKind_eq kind hkind)

theorem placed_some (kind : SectionKind) (hkind : kind ∈ Additions.targets) :
    Entries.placed kind (Module.someEntries (additions.entries kind))
      (Section.ofKind kind sections) = .ok (Section.ofKind kind spliced) := by
  have hplaced := h.placed kind
  rwa [Additions.lookup_pending, if_pos hkind] at hplaced

theorem ownFunctions (hframed : Section.Framed bytes sections) {functions : List UInt32}
    (hfunctions : Module.entries? sections .functions Leb128.index = some functions) :
    outline.ownFunctions.toNat = functions.length := by
  have htells := h.follows.tells .functions
  simp only [Outline.Tells, Outline.announced_of_entries? hfunctions] at htells
  rw [htells]
  exact UInt32.toNat_ofNat_of_lt' (hframed.length_functions_lt hfunctions)

theorem length_functions_lt : (Additions.accessorFunctions selection outline).length < 2 ^ 32 := by
  have := h.listed.indices_lt
  omega

/-- The signatures stand behind the types, each as a group of its own. -/
theorem types (hordered : Section.Ordered sections) {groups : List (List SubType)}
    (hgroups : Module.entries? sections .types SubType.readGroup = some groups) :
    Module.entries? spliced .types SubType.readGroup = some (groups ++
      (Additions.signaturesFor selection outline).map fun s => [⟨[], false, .func s.type⟩]) := by
  have hplaced := h.placed_some .types (by decide)
  rw [Additions.entries, h.listed.signatures] at hplaced
  have hlength : (Additions.signaturesFor selection outline).length < 2 ^ 32 := by
    unfold Additions.signaturesFor
    split <;> decide
  exact Module.entries?_of_placed hordered hlength (fun s _ => s.reads_encode) hgroups hplaced

theorem typeCount {groups : List (List SubType)}
    (hgroups : Module.entries? sections .types SubType.readGroup = some groups) :
    outline.typeCount.toNat = (groups.flatten.map (·.composite)).length := by
  obtain ⟨groups', hgroups', hcount⟩ := h.follows.tells .types
  rw [hgroups] at hgroups'
  cases hgroups'
  rw [hcount, List.length_map]

/-- The type indices of the accessor functions stand behind those of the module. -/
theorem functions (hordered : Section.Ordered sections) {indices : List UInt32}
    (hindices : Module.entries? sections .functions Leb128.index = some indices) :
    Module.entries? spliced .functions Leb128.index = some (indices ++
      (Additions.accessorFunctions selection outline).map
        fun f => outline.typeCount + f.signature.offset) := by
  have hplaced := h.placed_some .functions (by decide)
  rw [Additions.entries, h.listed.functions] at hplaced
  have hread := Module.entries?_of_placed hordered (by simpa using h.length_functions_lt)
    (fun index _ => Instr.reads_encodeIndex index) hindices hplaced
  rwa [List.map_id'] at hread

/-- The placed entries of the code section, as those of the accessor functions. -/
theorem placed_code : Entries.placed .code
    (Module.someEntries (.ofList (fun f : AccessorFunction => Instr.encodeBody f.code)
      (Additions.accessorFunctions selection outline)))
    (Section.ofKind .code sections) = .ok (Section.ofKind .code spliced) := by
  have hplaced := h.placed_some .code (by decide)
  rw [Additions.entries, h.listed.code] at hplaced
  simpa [Entries.ofList, List.flatMap_map] using hplaced

/-- The bodies of the accessor functions stand behind those of the module, which need not be
decoded for that. -/
theorem bodies (hordered : Section.Ordered sections) {bodies : List Bytes}
    (hbodies : Module.entries? sections .code Outline.readOpaqueBody = some bodies) :
    Module.entries? spliced .code Outline.readOpaqueBody = some (bodies ++
      (Additions.accessorFunctions selection outline).map (·.body)) :=
  Module.entries?_of_placed hordered h.length_functions_lt
    (fun _ hf => (Additions.readable_of_mem hf).reads_opaqueBody) hbodies h.placed_code

/-- The globals that get accessors are those that are exposed. -/
theorem mem_exposedGlobals_iff (hframed : Section.Framed bytes sections) {imports : List Import}
    {globals : List Global} (himports : Module.entries? sections .imports Import.read = some imports)
    (hglobals : Module.entries? sections .globals Global.read = some globals) {index : UInt32}
    {type : IntType} : (index, type) ∈ Additions.exposedGlobals selection outline ↔
      selection.exposed? imports globals index = some type := by
  obtain ⟨globals', hglobals', hown⟩ := h.follows.tells .globals
  rw [hglobals] at hglobals'
  cases hglobals'
  exact Additions.mem_exposedGlobals (h.follows.countsImports hframed himports) hown
    (hframed.length_globals_lt himports hglobals)

/-- The index of an added function counts the imported ones and the own ones before it. -/
theorem toNat_functionIndex {position : Nat}
    (hposition : position < (Additions.accessorFunctions selection outline).length) :
    (Additions.firstFunction outline + UInt32.ofNat position).toNat =
      outline.importedFunctions.toNat + outline.ownFunctions.toNat + position := by
  have := h.listed.indices_lt
  rw [Additions.firstFunction, UInt32.toNat_add, UInt32.toNat_add, UInt32.toNat_ofNat']
  omega

end Instrumented.Made

end WasmSnapshot
