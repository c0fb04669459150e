import WasmSnapshot.Proofs.Accessor.Name
import WasmSnapshot.Proofs.Instrument.Basic

/-! Accessor functions in the output. An accessor function has an entry in the type section, in the
function section, in the code section and in the exports, each counted from another start. Decoding
the output from scratch brings the four together again: under the index of its export an accessor has
the type and the body that its name calls for. -/

namespace WasmSnapshot

/-- What the sections of a module say of its functions and globals. Bodies stay as they are written,
so that they may hold any code. -/
structure Layout where
  /-- The types, those within groups one by one. -/
  types : List CompositeType
  imports : List Import
  /-- The type index of each function of the module. -/
  functions : List UInt32
  globals : List Global
  /-- The contents of each entry of the code section. -/
  bodies : List Bytes
  deriving DecidableEq, Repr

namespace Layout

/-- The layout of a module with the given sections. -/
def ofSections? (sections : List Section) : Option Layout := do
  let groups ← Module.entries? sections .types SubType.readGroup
  let imports ← Module.entries? sections .imports Import.read
  let functions ← Module.entries? sections .functions Leb128.index
  let globals ← Module.entries? sections .globals Global.read
  let bodies ← Module.entries? sections .code Outline.readOpaqueBody
  pure { types := groups.flatten.map (·.composite), imports, functions, globals, bodies }

/-- The layout of the module that a file holds. -/
def ofBytes? (bytes : Bytes) : Option Layout :=
  match Section.readModule bytes with
  | .ok sections => ofSections? sections
  | .error _ => none

/-- The type and the body of the function at an index, if it is one of the module itself. -/
def function? (layout : Layout) (index : UInt32) : Option (CompositeType × Bytes) := do
  let imported := Import.count .func layout.imports
  guard (imported ≤ index.toNat)
  let type ← layout.functions[index.toNat - imported]?
  let composite ← layout.types[type.toNat]?
  let body ← layout.bodies[index.toNat - imported]?
  pure (composite, body)

variable {sections : List Section} {layout : Layout}

theorem ofSections?_eq_some (h : ofSections? sections = some layout) :
    ∃ groups, Module.entries? sections .types SubType.readGroup = some groups ∧
      layout.types = groups.flatten.map (·.composite) ∧
      Module.entries? sections .imports Import.read = some layout.imports ∧
      Module.entries? sections .functions Leb128.index = some layout.functions ∧
      Module.entries? sections .globals Global.read = some layout.globals ∧
      Module.entries? sections .code Outline.readOpaqueBody = some layout.bodies := by
  simp only [ofSections?, Option.bind_eq_bind, Option.bind_eq_some_iff] at h
  obtain ⟨groups, hgroups, imports, himports, functions, hfunctions, globals, hglobals, bodies,
    hbodies, h⟩ := h
  cases h
  exact ⟨groups, hgroups, rfl, himports, hfunctions, hglobals, hbodies⟩

theorem function?_eq_some {index type : UInt32} {position : Nat} {composite : CompositeType}
    {body : Bytes} (hindex : index.toNat = Import.count .func layout.imports + position)
    (htype : layout.functions[position]? = some type)
    (hcomposite : layout.types[type.toNat]? = some composite)
    (hbody : layout.bodies[position]? = some body) :
    layout.function? index = some (composite, body) := by
  have hposition : index.toNat - Import.count .func layout.imports = position := by omega
  have hguard : Import.count .func layout.imports ≤ index.toNat := by omega
  simp [function?, hposition, htype, hcomposite, hbody, hguard, guard]

end Layout

/-- A file of less than `2 ^ 32` bytes with the sections of known kinds in order, none of them twice,
and with as many bodies as functions. -/
structure WellFormed (bytes : Bytes) (sections : List Section) (layout : Layout) : Prop where
  framed : Section.Framed bytes sections
  decoded : Layout.ofSections? sections = some layout
  functions : layout.functions.length = layout.bodies.length

/-- The type of the function that serves as an accessor of a global. -/
def Accessor.functionType : Accessor → FuncType
  | .i32Setter _ => ⟨[.i32], []⟩
  | .i64Setter _ => ⟨[.i32, .i32], []⟩
  | _ => ⟨[], [.i32]⟩

theorem IntType.signature_of_mem {type : IntType} {index : UInt32} {function : AccessorFunction}
    (h : function ∈ type.accessorFunctions index) :
    function.signature.type = function.accessor.functionType := by
  cases type <;> simp only [accessorFunctions, List.mem_cons, List.not_mem_nil, or_false] at h
  · rcases h with rfl | rfl <;> rfl
  · rcases h with rfl | rfl | rfl <;> rfl

namespace Instrumented.Made

variable {selection : Selection} {symbol : String} {bytes : Bytes} {sections spliced : List Section}
  {outline : Outline} {additions : Additions} {out : Instrumented} {layout : Layout}

/-- The layout of the output: that of the module, with the added entries behind its own. -/
theorem layout_spliced (h : Made selection symbol sections outline additions spliced out)
    (hordered : Section.Ordered sections) (hdecoded : Layout.ofSections? sections = some layout) :
    Layout.ofSections? spliced = some {
      types := layout.types ++
        (Additions.signaturesFor selection outline).map fun s => CompositeType.func s.type
      imports := layout.imports
      functions := layout.functions ++ (Additions.accessorFunctions selection outline).map
        fun f => outline.typeCount + f.signature.offset
      globals := layout.globals
      bodies := layout.bodies ++ (Additions.accessorFunctions selection outline).map (·.body) } := by
  obtain ⟨groups, hgroups, htypes, himports, hfunctions, hglobals, hbodies⟩ :=
    Layout.ofSections?_eq_some hdecoded
  have himports' := (h.entries?_eq .imports (by decide) Import.read).trans himports
  have hglobals' := (h.entries?_eq .globals (by decide) Global.read).trans hglobals
  simp only [Layout.ofSections?, h.types hordered hgroups, himports', h.functions hordered hfunctions,
    hglobals', h.bodies hordered hbodies, Option.bind_eq_bind, Option.bind_some,
    List.flatten_append, List.map_append, Signature.composites_flatten, htypes]
  rfl

end Instrumented.Made

/-- The exports that a module was given agree with the decoded output. -/
structure InStep (selection : Selection) (symbol : String) (layout decoded : Layout)
    (exports : List Export) : Prop where
  imports : decoded.imports = layout.imports
  globals : decoded.globals = layout.globals
  /-- Under the index of its export, an accessor of a global has the type and the body that its name
  calls for, and the global is one that is exposed. -/
  serves : ∀ e ∈ exports, ∀ accessor index,
    Accessor.ofExportName? symbol e.name = some accessor → accessor.global? = some index →
    e.kind = .func ∧ ∃ type function,
      selection.exposed? layout.imports layout.globals index = some type ∧
      function ∈ type.accessorFunctions index ∧ function.accessor = accessor ∧
      decoded.function? e.index = some (.func accessor.functionType, function.body) ∧
      Instr.readCode.whole function.body = some function.code
  /-- Every global that is exposed has all its accessors. -/
  complete : ∀ index type, selection.exposed? layout.imports layout.globals index = some type →
    ∀ function ∈ type.accessorFunctions index,
      ∃ e ∈ exports, e.name = function.accessor.exportName symbol

/-- Index agreement, for every module, selection and symbol. -/
theorem accessors_in_step {selection : Selection} {symbol : String} {bytes : Bytes}
    {sections : List Section} {layout : Layout} {out : Instrumented}
    (hwf : WellFormed bytes sections layout) (h : instrument selection symbol bytes = .ok out) :
    ∃ decoded, Layout.ofBytes? out.bytes = some decoded ∧
      InStep selection symbol layout decoded out.exports := by
  obtain ⟨outline, additions, spliced, hmade⟩ :=
    made_of_instrument hwf.framed.read hwf.framed.ordered h
  have hdecoded := hmade.layout_spliced hwf.framed.ordered hwf.decoded
  have hbytes : Layout.ofBytes? out.bytes = Layout.ofSections? spliced := by
    rw [Layout.ofBytes?, hmade.read]
  obtain ⟨groups, hgroups, htypes, himports, hfunctions, hglobals, -⟩ :=
    Layout.ofSections?_eq_some hwf.decoded
  have hcounts := hmade.follows.countsImports hwf.framed himports
  have hown := hmade.ownFunctions hwf.framed hfunctions
  have htypeCount := hmade.typeCount hgroups
  have hexposed (index : UInt32) (type : IntType) :
      (index, type) ∈ Additions.exposedGlobals selection outline ↔
        selection.exposed? layout.imports layout.globals index = some type :=
    hmade.mem_exposedGlobals_iff hwf.framed himports hglobals
  refine ⟨_, hbytes.trans hdecoded, ⟨rfl, rfl, ?_, ?_⟩⟩
  · intro e he accessor index hname hglobal
    rw [hmade.exports, hmade.listed.exports, List.mem_append] at he
    rcases he with he | he
    · obtain ⟨item, hitem, hnone⟩ := Additions.mem_itemExports he
      rw [hitem, Accessor.ofExportName?_exportName] at hname
      cases hname
      rw [hnone] at hglobal
      cases hglobal
    · obtain ⟨position, function, hget, rfl⟩ := Additions.mem_functionExports.1 he
      rw [Accessor.ofExportName?_exportName] at hname
      cases hname
      have hmem : function ∈ Additions.accessorFunctions selection outline :=
        List.mem_of_getElem? hget
      obtain ⟨exposed, type, hexposed', hfunction⟩ := Additions.mem_accessorFunctions.1 hmem
      rw [IntType.global?_of_mem hfunction] at hglobal
      cases hglobal
      refine ⟨rfl, type, function, (hexposed _ _).1 hexposed', hfunction, rfl, ?_,
        Instr.whole_readCode (Additions.readable_of_mem hmem).instr⟩
      obtain ⟨hposition, -⟩ := List.getElem?_eq_some_iff.1 hget
      have hindex : (Additions.firstFunction outline + UInt32.ofNat position).toNat =
          Import.count .func layout.imports + (layout.functions.length + position) := by
        rw [hmade.toNat_functionIndex hposition, hcounts.functions, hown, Nat.add_assoc]
      have htype := hmade.listed.getElem?_types hmem htypeCount
      rw [← htypes, IntType.signature_of_mem hfunction] at htype
      -- Type indices and bodies both have the entry at the same place behind the old ones.
      refine Layout.function?_eq_some hindex ?_ htype ?_
      · rw [List.getElem?_append_right (Nat.le_add_right _ _), Nat.add_sub_cancel_left,
          List.getElem?_map, hget]
        rfl
      · rw [hwf.functions, List.getElem?_append_right (Nat.le_add_right _ _),
          Nat.add_sub_cancel_left, List.getElem?_map, hget]
        rfl
  · intro index type hindex function hfunction
    have hmem := Additions.mem_accessorFunctions.2 ⟨index, type, (hexposed _ _).2 hindex, hfunction⟩
    obtain ⟨position, hget⟩ := List.mem_iff_getElem?.1 hmem
    rw [hmade.exports, hmade.listed.exports]
    exact ⟨_, List.mem_append_right _
      (Additions.mem_functionExports.2 ⟨position, function, hget, rfl⟩), rfl⟩

/-- A module with two types, an imported function, a function, a table that holds it, a memory and two
globals, of type `i32` and of type `i64`. -/
def sampleSections : List Section := [
  ⟨1, [2, 0x60, 0, 0, 0x60, 0, 0]⟩,
  ⟨2, [1, 0, 0, 0, 0]⟩,
  ⟨3, [1, 1]⟩,
  ⟨4, [1, 0x70, 0, 1]⟩,
  ⟨5, [1, 0, 1]⟩,
  ⟨6, [2, 0x7f, 1, 0x41, 5, 0x0b, 0x7e, 1, 0x42, 7, 0x0b]⟩,
  ⟨9, [1, 0, 0x41, 0, 0x0b, 1, 1]⟩,
  ⟨10, [1, 2, 0, 0x0b]⟩]

def sampleLayout : Layout where
  types := [.func ⟨[], []⟩, .func ⟨[], []⟩]
  imports := [⟨"", "", .func 0⟩]
  functions := [1]
  globals := [⟨⟨.i32, true⟩, [0x41, 5, 0x0b]⟩, ⟨⟨.i64, true⟩, [0x42, 7, 0x0b]⟩]
  bodies := [[0, 0x0b]]

theorem framed_sample : Section.Framed (Section.encodeModule sampleSections) sampleSections where
  read := Section.readModule_encodeModule (by decide +kernel)
  length_lt := by decide +kernel
  ordered := by unfold Section.Ordered; decide +kernel

theorem wellFormed_sample :
    WellFormed (Section.encodeModule sampleSections) sampleSections sampleLayout where
  framed := framed_sample
  decoded := by decide +kernel
  functions := rfl

theorem accessors_in_step_sample : ∃ out decoded,
    WellFormed (Section.encodeModule sampleSections) sampleSections sampleLayout ∧
    instrument .all "_" (Section.encodeModule sampleSections) = .ok out ∧
    Layout.ofBytes? out.bytes = some decoded ∧
    InStep .all "_" sampleLayout decoded out.exports := by
  cases h : instrument .all "_" (Section.encodeModule sampleSections) with
  | error e =>
    have hok : (instrument .all "_" (Section.encodeModule sampleSections)).isOk := by decide +kernel
    rw [h] at hok
    cases hok
  | ok out =>
    obtain ⟨decoded, hdecoded, hstep⟩ := accessors_in_step wellFormed_sample h
    exact ⟨out, decoded, wellFormed_sample, rfl, hdecoded, hstep⟩

end WasmSnapshot
