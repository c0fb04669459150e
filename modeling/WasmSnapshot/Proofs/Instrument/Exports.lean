import WasmSnapshot.Proofs.Instrument.Append

/-! The exports that a module is given. They are named here from what the module declares: its counts
of imports, functions, tables and memories, and its globals. A decoder finds them in the output
behind the exports that were there before, whatever these are called. -/

namespace WasmSnapshot

open Reader

/-! ### Exports as they are written -/

/-- An export as it is written. The bytes of its name may be any. -/
structure ExportEntry where
  name : Bytes
  kind : ExternKind
  index : UInt32
  deriving DecidableEq, Repr

/-- An entry of the export section, of any length and in any encoding of its name. -/
def ExportEntry.read : Reader ExportEntry := do
  let name ← Reader.take (← Leb128.size)
  let kind ← ExternKind.read
  let index ← Leb128.index
  pure { name, kind, index }

instance : Extensible ExportEntry.read := by
  unfold ExportEntry.read
  infer_instance

namespace Export

/-- The entry that an export is written as. -/
def entry (e : Export) : ExportEntry := ⟨e.name.toUTF8.data.toList, e.kind, e.index⟩

theorem utf8ByteSize_le_length_encode (e : Export) : e.name.utf8ByteSize ≤ e.encode.length := by
  have hname : e.name.toUTF8.data.toList.length = e.name.utf8ByteSize := rfl
  simp only [encode, Name.encode, List.length_append, List.length_cons]
  omega

/-- An export is read as it was written, if the length of its name can be written at all. -/
theorem reads_entry {e : Export} (h : e.name.utf8ByteSize < 2 ^ 32) :
    Reads ExportEntry.read e.encode e.entry := by
  intro more
  have htake : take e.name.utf8ByteSize (e.name.toUTF8.data.toList ++
      e.kind.code :: (Instr.encodeIndex e.index ++ more)) = some (e.name.toUTF8.data.toList, _) :=
    take_append e.name.toUTF8.data.toList _
  rw [encode, Name.encode, ExportEntry.read, List.append_assoc, List.append_assoc,
    bind_of_eq_some (Leb128.size_encode h _), List.cons_append, bind_of_eq_some htake,
    bind_of_eq_some (ExternKind.read_cons e.kind _),
    bind_of_eq_some (Instr.reads_encodeIndex e.index more)]
  rfl

end Export

/-! ### Exports by what a module declares -/

/-- The accessors of a global of this type, in the order in which they are exported. -/
def IntType.accessors (index : UInt32) : IntType → List Accessor
  | .i32 => [.i32Getter index, .i32Setter index]
  | .i64 => [.i64GetterHigh index, .i64GetterLow index, .i64Setter index]

namespace Selection

/-- The accessors of all globals that are exposed, in the order of the globals. -/
def globalAccessors (selection : Selection) (imports : List Import) (globals : List Global) :
    List Accessor :=
  (List.range' (Import.count .global imports) globals.length).flatMap fun i =>
    match selection.exposed? imports globals (UInt32.ofNat i) with
    | some type => type.accessors (UInt32.ofNat i)
    | none => []

/-- The exports for a module with the given imports and globals and so many functions, tables and
memories of its own: its first memory, its first table and its functions, then the functions that are
added behind them. -/
def exports (selection : Selection) (symbol : String) (imports : List Import)
    (functions tables memories : Nat) (globals : List Global) : List Export :=
  let imported (kind : ExternKind) : Nat := Import.count kind imports
  let exportOf (accessor : Accessor) (kind : ExternKind) (index : Nat) : Export :=
    ⟨accessor.exportName symbol, kind, UInt32.ofNat index⟩
  (if selection.memory ∧ 0 < memories then [exportOf .memory .memory (imported .memory)] else []) ++
  (if selection.table ∧ 0 < tables then [exportOf .table .table (imported .table)] else []) ++
  ((List.range' (imported .func) functions).map fun i =>
    exportOf (.function (UInt32.ofNat i)) .func i) ++
  ((selection.globalAccessors imports globals).zipIdx (imported .func + functions)).map
    fun (accessor, i) => exportOf accessor .func i

variable {selection : Selection} {imports : List Import} {globals : List Global}

/-- The global at a position is exposed if it can be set and is selected. -/
theorem exposed?_of_getElem? {position : Nat} {global : Global}
    (hlt : Import.count .global imports + position < 2 ^ 32)
    (hget : globals[position]? = some global) :
    selection.exposed? imports globals (UInt32.ofNat (Import.count .global imports + position)) =
      if global.type.isMutable &&
          selection.selectsGlobal (UInt32.ofNat (Import.count .global imports + position)) then
        IntType.ofValueType? global.type.value
      else none := by
  have htoNat : (UInt32.ofNat (Import.count .global imports + position)).toNat =
      Import.count .global imports + position := UInt32.toNat_ofNat_of_lt' hlt
  simp only [exposed?, htoNat, Nat.add_sub_cancel_left, hget, Nat.le_add_right, guard, if_true,
    Option.bind_eq_bind, Option.bind_some]
  split <;> rfl

end Selection

theorem IntType.map_accessor_accessorFunctions (type : IntType) (index : UInt32) :
    (type.accessorFunctions index).map (·.accessor) = type.accessors index := by
  cases type <;> rfl

namespace Additions

variable {selection : Selection} {symbol : String} {outline : Outline} {imports : List Import}
  {globals : List Global} {functions : Nat}

theorem ownFunctions_eq
    (himported : outline.importedFunctions = UInt32.ofNat (Import.count .func imports))
    (hown : outline.ownFunctions.toNat = functions) :
    ownFunctions outline =
      (List.range' (Import.count .func imports) functions).map UInt32.ofNat := by
  rw [ownFunctions, hown, himported, List.range'_eq_map_range, List.map_map]
  exact List.map_congr_left fun n _ => (UInt32.ofNat_add _ _).symm

/-- The globals that get accessors, by their indices. -/
theorem exposedGlobals_eq
    (himported : outline.importedGlobals = UInt32.ofNat (Import.count .global imports))
    (hown : outline.globals = outline.ownGlobals globals)
    (hlt : Import.count .global imports + globals.length < 2 ^ 32) :
    exposedGlobals selection outline =
      (List.range' (Import.count .global imports) globals.length).filterMap fun i =>
        (selection.exposed? imports globals (UInt32.ofNat i)).map (UInt32.ofNat i, ·) := by
  rw [exposedGlobals, hown, Outline.ownGlobals, ← List.zipIdx_map_snd,
    List.zipIdx_eq_map_add (i := Import.count .global imports), List.map_map, List.filterMap_map,
    List.filterMap_map]
  refine List.filterMap_congr ?_
  rintro ⟨global, position⟩ hmem
  have hget := List.mk_mem_zipIdx_iff_getElem?.1 hmem
  obtain ⟨hposition, -⟩ := List.getElem?_eq_some_iff.1 hget
  have hindex : outline.importedGlobals + UInt32.ofNat position =
      UInt32.ofNat (Import.count .global imports + position) := by
    rw [himported, UInt32.ofNat_add]
  have hlt' : Import.count .global imports + position < 2 ^ 32 := by omega
  simp only [Function.comp_apply, hindex, Selection.exposed?_of_getElem? hlt' hget]
  split <;> rfl

theorem map_accessor_accessorFunctions
    (himported : outline.importedGlobals = UInt32.ofNat (Import.count .global imports))
    (hown : outline.globals = outline.ownGlobals globals)
    (hlt : Import.count .global imports + globals.length < 2 ^ 32) :
    (accessorFunctions selection outline).map (·.accessor) =
      selection.globalAccessors imports globals := by
  rw [accessorFunctions, exposedGlobals_eq himported hown hlt, List.map_flatMap,
    Selection.globalAccessors, List.filterMap_eq_flatMap_toList, List.flatMap_assoc]
  refine List.flatMap_congr fun i _ => ?_
  cases selection.exposed? imports globals (UInt32.ofNat i) with
  | none => rfl
  | some type =>
    refine (List.append_nil _).trans ?_
    exact type.map_accessor_accessorFunctions (UInt32.ofNat i)

theorem functionExports_eq (first : Nat) (added : List AccessorFunction) :
    functionExports symbol (UInt32.ofNat first) added =
      ((added.map (·.accessor)).zipIdx first).map fun entry =>
        ⟨entry.1.exportName symbol, .func, UInt32.ofNat entry.2⟩ := by
  rw [functionExports, List.zipIdx_map, List.map_map, List.zipIdx_eq_map_add (i := first),
    List.map_map]
  refine List.map_congr_left fun entry _ => ?_
  simp [UInt32.ofNat_add]

end Additions

/-! ### The exports of an output -/

/-- The exports of a module and those that it is given, in the sections of the output. -/
structure Export.Appended (old : List ExportEntry) (added : List Export)
    (sections spliced : List Section) : Prop where
  decoded : Module.entries? spliced .exports ExportEntry.read = some (old ++ added.map Export.entry)
  length_le : (Section.ofKind .exports spliced).length ≤ 1
  absent_iff : Section.ofKind .exports spliced = [] ↔
    Section.ofKind .exports sections = [] ∧ added = []

namespace Instrumented.Made

variable {selection : Selection} {symbol : String} {bytes : Bytes} {sections spliced : List Section}
  {outline : Outline} {additions : Additions} {out : Instrumented} {imports : List Import}
  {globals : List Global} {old : List ExportEntry}

theorem placed_exports (h : Made selection symbol sections outline additions spliced out)
    (hcount : out.exports.length < 2 ^ 32) : Entries.placed .exports
      (if out.exports = [] then none else some (.ofList Export.encode out.exports))
      (Section.ofKind .exports sections) = .ok (Section.ofKind .exports spliced) := by
  have hplaced := h.placed_some .exports (by decide)
  rwa [Additions.entries, ← h.exports, Module.someEntries_ofList hcount] at hplaced

/-- The names of the exports stand in a section, so their lengths can be written. -/
theorem utf8ByteSize_lt (h : Made selection symbol sections outline additions spliced out)
    (hcount : out.exports.length < 2 ^ 32) {e : Export} (he : e ∈ out.exports) :
    e.name.utf8ByteSize < 2 ^ 32 := by
  have hplaced := h.placed_exports hcount
  rw [if_neg (List.ne_nil_of_mem he)] at hplaced
  obtain ⟨s, hs, hle⟩ := Entries.length_le_of_placed hplaced
  have hlt := Section.length_lt_of_readModule h.read s (List.mem_of_mem_filter hs)
  have hname := e.utf8ByteSize_le_length_encode
  obtain ⟨before, after, heq⟩ := List.append_of_mem he
  simp only [Entries.ofList, heq, List.flatMap_append, List.flatMap_cons, List.length_append] at hle
  omega

theorem exports_appended (h : Made selection symbol sections outline additions spliced out)
    (hordered : Section.Ordered sections) (hcount : out.exports.length < 2 ^ 32)
    (hold : Module.entries? sections .exports ExportEntry.read = some old) :
    Export.Appended old out.exports sections spliced := by
  have hplaced := h.placed_exports hcount
  have hordinary : (Section.ofKind .exports sections).length ≤ 1 := by
    rcases hordered.nil_or_singleton .exports with hnone | ⟨s, hs⟩
    · rw [hnone]; exact Nat.zero_le 1
    · rw [hs]; exact Nat.le_refl 1
  have hread : ∀ e ∈ out.exports, Reads ExportEntry.read e.encode e.entry :=
    fun e he => Export.reads_entry (h.utf8ByteSize_lt hcount he)
  have hdecoded : Module.entries? spliced .exports ExportEntry.read =
      some (old ++ out.exports.map Export.entry) := by
    refine Module.entries?_of_placed hordered hcount hread hold ?_
    rwa [Module.someEntries_ofList hcount]
  by_cases hnone : out.exports = []
  · rw [if_pos hnone] at hplaced
    have hsame := Except.ok.inj hplaced
    exact ⟨hdecoded, hsame ▸ hordinary, by rw [← hsame]; exact (and_iff_left hnone).symm⟩
  · rw [if_neg hnone] at hplaced
    have hlength := Entries.length_of_placed hplaced
    refine ⟨hdecoded, by omega, ?_⟩
    rw [← List.length_eq_zero_iff]
    exact ⟨fun hzero => by omega, fun hboth => absurd hboth.2 hnone⟩

/-- The exports that are given, by what the module declares. -/
theorem exports_eq_selected (h : Made selection symbol sections outline additions spliced out)
    (hframed : Section.Framed bytes sections)
    (himports : Module.entries? sections .imports Import.read = some imports)
    (hglobals : Module.entries? sections .globals Global.read = some globals) :
    out.exports = selection.exports symbol imports (Outline.announced .functions sections)
        (Outline.announced .tables sections) (Outline.announced .memories sections) globals ∧
      Import.count .func imports + Outline.announced .functions sections +
        (selection.globalAccessors imports globals).length < 2 ^ 32 := by
  obtain ⟨imports', himports', hfunctions, htables, hmemories, himported⟩ := h.follows.tells .imports
  cases himports.symm.trans himports'
  obtain ⟨globals', hglobals', hown⟩ := h.follows.tells .globals
  cases hglobals.symm.trans hglobals'
  have hcounts := h.follows.countsImports hframed himports
  have hlt : Import.count .global imports + globals.length < 2 ^ 32 := by
    have := hframed.length_globals_lt himports hglobals
    have := Import.count_le_length .global imports
    omega
  have hownFunctions : outline.ownFunctions = UInt32.ofNat (Outline.announced .functions sections) :=
    h.follows.tells .functions
  have htoNat : outline.ownFunctions.toNat = Outline.announced .functions sections := by
    rw [hownFunctions]
    exact UInt32.toNat_ofNat_of_lt' (Outline.announced_lt hframed.ordered .functions)
  have haccessors : (Additions.accessorFunctions selection outline).map (·.accessor) =
      selection.globalAccessors imports globals :=
    Additions.map_accessor_accessorFunctions himported hown hlt
  have htable : outline.table = if 0 < Outline.announced .tables sections then
    some outline.importedTables else none := h.follows.tells .tables
  have hmemory : outline.memory = if 0 < Outline.announced .memories sections then
    some outline.importedMemories else none := h.follows.tells .memories
  constructor
  · rw [h.exports, h.listed.exports, Additions.firstFunction, hfunctions, hownFunctions,
      ← UInt32.ofNat_add, Additions.functionExports_eq, haccessors, Additions.itemExports,
      Additions.ownFunctions_eq hfunctions htoNat, List.map_map, hmemory, htable, hmemories, htables,
      Selection.exports]
    congr 1
    congr 1
    congr 1
    · by_cases hselected : selection.memory = true <;>
        by_cases hpos : 0 < Outline.announced .memories sections <;> simp [hselected, hpos]
    · by_cases hselected : selection.table = true <;>
        by_cases hpos : 0 < Outline.announced .tables sections <;> simp [hselected, hpos]
  · have hindices := h.listed.indices_lt
    rw [hcounts.functions, htoNat] at hindices
    rwa [← haccessors, List.length_map]

end Instrumented.Made

/-- The exports of an output, for every module, selection and symbol: those of the module, whatever
their names, then the ones that are returned, which are those of all that is selected. Each is under
the index of its item, which the bounds keep within 32 bits. -/
theorem exports_of_instrument {selection : Selection} {symbol : String} {bytes : Bytes}
    {sections : List Section} {old : List ExportEntry} {out : Instrumented}
    (hframed : Section.Framed bytes sections)
    (hold : Module.entries? sections .exports ExportEntry.read = some old)
    (h : instrument selection symbol bytes = .ok out) (hcount : out.exports.length < 2 ^ 32) :
    ∃ imports globals spliced, Module.entries? sections .imports Import.read = some imports ∧
      Module.entries? sections .globals Global.read = some globals ∧
      Section.readModule out.bytes = .ok spliced ∧
      Export.Appended old out.exports sections spliced ∧
      out.exports = selection.exports symbol imports (Outline.announced .functions sections)
        (Outline.announced .tables sections) (Outline.announced .memories sections) globals ∧
      imports.length + globals.length < 2 ^ 32 ∧
      Import.count .func imports + Outline.announced .functions sections +
        (selection.globalAccessors imports globals).length < 2 ^ 32 := by
  obtain ⟨outline, additions, spliced, hmade⟩ :=
    made_of_instrument hframed.read hframed.ordered h
  obtain ⟨imports, himports, -⟩ := hmade.follows.tells .imports
  obtain ⟨globals, hglobals, -⟩ := hmade.follows.tells .globals
  obtain ⟨hselected, hindices⟩ := hmade.exports_eq_selected hframed himports hglobals
  have hlength := hframed.length_globals_lt himports hglobals
  exact ⟨imports, globals, spliced, himports, hglobals, hmade.read,
    hmade.exports_appended hframed.ordered hcount hold, hselected, by omega, hindices⟩

/-- A module that imports an item of each kind and has a table, a memory, two functions and three
globals of its own. It exports a function under a name that is no text, and the count of its exports
is written in more bytes than it needs. -/
def exportingSections : List Section := [
  ⟨1, [1, 0x60, 0, 0]⟩,
  ⟨2, [4, 0, 0, 0, 0, 0, 0, 1, 0x70, 0, 1, 0, 0, 2, 0, 1, 0, 0, 3, 0x7f, 0]⟩,
  ⟨3, [2, 0, 0]⟩,
  ⟨4, [1, 0x70, 0, 1]⟩,
  ⟨5, [1, 0, 1]⟩,
  ⟨6, [3, 0x7f, 1, 0x41, 5, 0x0b, 0x7e, 1, 0x42, 7, 0x0b, 0x7f, 1, 0x41, 5, 0x0b]⟩,
  ⟨7, [0x81, 0x80, 0x00, 1, 0xff, 0, 0]⟩,
  ⟨10, [2, 2, 0, 0x0b, 2, 0, 0x0b]⟩]

/-- All but the table and the last global of that module. -/
def exportingSelection : Selection := { table := false, globals := [true, true, true, false] }

theorem exports_of_instrument_offsets : ∃ out,
    Section.Framed (Section.encodeModule exportingSections) exportingSections ∧
    Module.entries? exportingSections .exports ExportEntry.read = some [⟨[0xff], .func, 0⟩] ∧
    instrument exportingSelection "_" (Section.encodeModule exportingSections) = .ok out ∧
    out.exports.length < 2 ^ 32 ∧
    ∃ imports globals spliced,
      Module.entries? exportingSections .imports Import.read = some imports ∧
      Module.entries? exportingSections .globals Global.read = some globals ∧
      Section.readModule out.bytes = .ok spliced ∧
      Export.Appended [⟨[0xff], .func, 0⟩] out.exports exportingSections spliced ∧
      out.exports = exportingSelection.exports "_" imports
        (Outline.announced .functions exportingSections)
        (Outline.announced .tables exportingSections)
        (Outline.announced .memories exportingSections) globals ∧
      imports.length + globals.length < 2 ^ 32 ∧
      Import.count .func imports + Outline.announced .functions exportingSections +
        (exportingSelection.globalAccessors imports globals).length < 2 ^ 32 := by
  have hframed : Section.Framed (Section.encodeModule exportingSections) exportingSections := {
    read := Section.readModule_encodeModule (by decide +kernel)
    length_lt := by decide +kernel
    ordered := by unfold Section.Ordered; decide +kernel }
  have hold : Module.entries? exportingSections .exports ExportEntry.read =
      some [⟨[0xff], .func, 0⟩] := by decide +kernel
  have hfew : (instrument exportingSelection "_"
      (Section.encodeModule exportingSections)).toOption.any
        (·.exports.length < 2 ^ 32) = true := by decide +kernel
  cases h : instrument exportingSelection "_" (Section.encodeModule exportingSections) with
  | error e =>
    rw [h] at hfew
    cases hfew
  | ok out =>
    rw [h] at hfew
    have hcount : out.exports.length < 2 ^ 32 := by simpa [Except.toOption] using hfew
    exact ⟨out, hframed, hold, rfl, hcount, exports_of_instrument hframed hold h hcount⟩

example : ((instrument exportingSelection "_"
    (Section.encodeModule exportingSections)).toOption.map
      (·.exports.map fun e => (e.name, e.kind, e.index))) = some [
  ("_memory", .memory, 1), ("_func_1", .func, 1), ("_func_2", .func, 2),
  ("_global_getter_i32_1", .func, 3), ("_global_setter_i32_1", .func, 4),
  ("_global_getter_i64_2_high", .func, 5), ("_global_getter_i64_2_low", .func, 6),
  ("_global_setter_i64_2", .func, 7)] := by decide +kernel

end WasmSnapshot
