import WasmSnapshot.Proofs.Accessor.Exports
import WasmSnapshot.Proofs.Host.Instance
import WasmSnapshot.Proofs.Instrument.Layout

/-! What a module declares, and what the one declares that instrumenting makes of it: the items of the
module are there as they were, and what was added stands behind them. The code of functions stays as
it is written, so it may be any code.

An instance of a module is told by what the module declares. A function whose code this library knows
has that code; any other one is a function of the declared type, which may do as it likes. -/

namespace WasmSnapshot

/-- What the sections of a module declare. Of its memories only the number is told. -/
structure Declarations extends Layout where
  tables : List TableType
  memories : Nat
  exports : List Export
  deriving DecidableEq, Repr

namespace Declarations

/-- An entry of the table section: the type of the table, or after the bytes `40` and `00` the type
and the code of what its slots hold at first. -/
def readTable : Reader TableType := do
  if (← Reader.peek) = 0x40 then
    let _marker ← Reader.byte
    Reader.expect 0
    let type ← TableType.read
    let _init ← Reader.upTo Instr.endByte Operator.skip
    pure type
  else TableType.read

/-- What a module with the given sections declares. -/
def ofSections? (sections : List Section) : Option Declarations := do
  let layout ← Layout.ofSections? sections
  let tables ← Module.entries? sections .tables readTable
  let exports ← Module.entries? sections .exports Export.read
  pure { layout with tables, memories := Outline.announced .memories sections, exports }

/-- What the module declares that a file holds. -/
def ofBytes? (bytes : Bytes) : Option Declarations :=
  match Section.readModule bytes with
  | .ok sections => ofSections? sections
  | .error _ => none

variable {sections : List Section} {m : Declarations}

theorem ofBytes?_of_readModule {bytes : Bytes} (h : Section.readModule bytes = .ok sections) :
    ofBytes? bytes = ofSections? sections := by
  rw [ofBytes?, h]

theorem ofSections?_eq_some (h : ofSections? sections = some m) :
    Layout.ofSections? sections = some m.toLayout ∧
      Module.entries? sections .tables readTable = some m.tables ∧
      m.memories = Outline.announced .memories sections ∧
      Module.entries? sections .exports Export.read = some m.exports := by
  simp only [ofSections?, Option.bind_eq_bind, Option.bind_eq_some_iff] at h
  obtain ⟨layout, hlayout, tables, htables, exports, hexports, h⟩ := h
  cases h
  exact ⟨hlayout, htables, rfl, hexports⟩

end Declarations

namespace Additions

variable (selection : Selection) (symbol : String) (outline : Outline)

theorem length_accessorFunctions_le :
    (accessorFunctions selection outline).length ≤ 3 * outline.globals.length := by
  have hexposed : (exposedGlobals selection outline).length ≤ outline.globals.length :=
    List.length_filterMap_le _ _
  have hfunctions (globals : List (UInt32 × IntType)) :
      (globals.flatMap fun global => global.2.accessorFunctions global.1).length ≤
        3 * globals.length := by
    induction globals with
    | nil => exact Nat.le_refl _
    | cons global globals ih =>
      have hone : (global.2.accessorFunctions global.1).length ≤ 3 := by
        cases global.2 <;> simp [IntType.accessorFunctions]
      rw [List.flatMap_cons, List.length_append, List.length_cons]
      omega
  exact Nat.le_trans (hfunctions _) (Nat.mul_le_mul_left 3 hexposed)

theorem length_itemExports_le :
    (itemExports selection symbol outline).length ≤ 2 + outline.ownFunctions.toNat := by
  have hoption (value : Option UInt32) : value.toList.length ≤ 1 := by
    cases value <;> simp
  have hmemory := hoption (if selection.memory then outline.memory else none)
  have htable := hoption (if selection.table then outline.table else none)
  simp only [itemExports, ownFunctions, List.length_append, List.length_map, List.length_range]
  omega

end Additions

/-- What a module declares, and what the one declares that it becomes, item by item. -/
structure Declarations.Equipped (selection : Selection) (symbol : String) (outline : Outline)
    (original m : Declarations) : Prop where
  types : m.types = original.types ++
    (Additions.signaturesFor selection outline).map fun s => CompositeType.func s.type
  imports : m.imports = original.imports
  functions : m.functions = original.functions ++
    (Additions.accessorFunctions selection outline).map
      fun f => outline.typeCount + f.signature.offset
  tables : m.tables = original.tables
  memories : m.memories = original.memories
  globals : m.globals = original.globals
  exports : m.exports = original.exports ++ (Additions.itemExports selection symbol outline ++
    Additions.functionExports symbol (Additions.firstFunction outline)
      (Additions.accessorFunctions selection outline))
  bodies : m.bodies = original.bodies ++
    (Additions.accessorFunctions selection outline).map (·.body)

namespace Instrumented.Made

open Declarations

variable {selection : Selection} {symbol : String} {bytes : Bytes} {sections spliced : List Section}
  {outline : Outline} {additions : Additions} {out : Instrumented} {original m : Declarations}

/-- There are fewer than `2 ^ 32` exports to be added, as each takes a byte of the module. -/
theorem length_exports_lt (h : Made selection symbol sections outline additions spliced out)
    (hframed : Section.Framed bytes sections) {functions : List UInt32}
    (hfunctions : Module.entries? sections .functions Leb128.index = some functions) :
    additions.exports.toList.length < 2 ^ 32 := by
  obtain ⟨globals, hglobals, hown⟩ := h.follows.tells .globals
  have hcount : outline.globals.length = globals.length := by
    rw [hown, Outline.ownGlobals, List.length_map, List.length_zipIdx]
  have hitems := Additions.length_itemExports_le selection symbol outline
  have haccessors := Additions.length_accessorFunctions_le selection outline
  have hownFunctions := h.ownFunctions hframed hfunctions
  have := hframed.contentSize_lt
  have := Section.length_le_contentSize Reader.takes_of_consuming hfunctions
  have := Section.length_le_contentSize Global.takes_read hglobals
  have := Section.contentSize_ofKind_add_le (show SectionKind.functions ≠ .globals by decide) sections
  rw [h.listed.exports, List.length_append, Additions.functionExports, List.length_map,
    List.length_zipIdx]
  omega

theorem exports_eq (h : Made selection symbol sections outline additions spliced out)
    (hframed : Section.Framed bytes sections) (horiginal : ofSections? sections = some original)
    (hm : ofSections? spliced = some m) :
    m.exports = original.exports ++ additions.exports.toList := by
  obtain ⟨hlayout, -, -, hexports⟩ := ofSections?_eq_some horiginal
  obtain ⟨-, -, -, hexports'⟩ := ofSections?_eq_some hm
  obtain ⟨-, -, -, -, hfunctions, -, -⟩ := Layout.ofSections?_eq_some hlayout
  have hplaced := h.placed_some .exports (by decide)
  rw [Additions.entries] at hplaced
  have hread := Module.eq_of_entries?_placed hframed.ordered (h.length_exports_lt hframed hfunctions)
    (fun e _ => Export.readsAtMost_encode e) hexports hplaced hexports'
  rwa [List.map_id'] at hread

/-- Whatever the module declares, it becomes one that declares its accessors as well. -/
theorem equipped (h : Made selection symbol sections outline additions spliced out)
    (hframed : Section.Framed bytes sections) (horiginal : ofSections? sections = some original)
    (hm : ofSections? spliced = some m) : Equipped selection symbol outline original m := by
  obtain ⟨hlayout, htables, hmemories, -⟩ := ofSections?_eq_some horiginal
  obtain ⟨hlayout', htables', hmemories', -⟩ := ofSections?_eq_some hm
  rw [h.layout_spliced hframed.ordered hlayout, Option.some.injEq] at hlayout'
  exact {
    types := by rw [← hlayout']
    imports := by rw [← hlayout']
    functions := by rw [← hlayout']
    tables := by
      rw [h.entries?_eq .tables (by decide), htables] at htables'
      exact (Option.some.inj htables').symm
    memories := by
      rw [hmemories', hmemories, Outline.announced_congr (h.ofKind_eq .memories (by decide))]
    globals := by rw [← hlayout']
    exports := by rw [h.exports_eq hframed horiginal hm, h.listed.exports]
    bodies := by rw [← hlayout'] }

end Instrumented.Made

/-! ### Instances -/

/-- The function does what the body says, if that is code that is known, and otherwise anything that a
function of the type may do. -/
def Callable.Runs (function : Callable) (type : FuncType) (scope : Scope) (body : Bytes) : Prop :=
  function.type = type ∧
    ∀ code, Instr.readCode.whole body = some code → function = .code type scope code

namespace Instance

/-- An instance of a module in a store. Its own items have addresses that follow one another, and it
exports all but the tags of the module. -/
structure Of (m : Declarations) (inst : Instance) (store : Store) : Prop where
  types : inst.scope.types = m.types
  functions : ∃ base,
    OwnSpace inst.scope.functions (Import.count .func m.imports) m.functions.length base ∧
    ∀ k index body, m.functions[k]? = some index → m.bodies[k]? = some body →
      ∃ type function, Module.funcType? m.types index = some type ∧
        store.functions[base + k]? = some function ∧ function.Runs type inst.scope body
  tables : ∃ base, OwnSpace inst.scope.tables (Import.count .table m.imports) m.tables.length base ∧
    ∀ k type, m.tables[k]? = some type → ∃ table, store.tables[base + k]? = some table ∧
      table.element = type.element ∧ table.slots.size ≤ TableType.maxSlots
  memories : ∃ base, OwnSpace inst.scope.memories (Import.count .memory m.imports) m.memories base ∧
    ∀ k < m.memories, ∃ memory, store.memories[base + k]? = some memory
  globals : ∃ base,
    OwnSpace inst.scope.globals (Import.count .global m.imports) m.globals.length base ∧
    ∀ k global, m.globals[k]? = some global →
      ∃ cell, store.globals[base + k]? = some cell ∧ cell.type = global.type
  exports : inst.exports = m.exports.filterMap (Additions.resolved inst.scope)
  exports_found : ∀ e ∈ m.exports, e.kind = .tag ∨ (externOf? inst.scope e).isSome = true

variable {m : Declarations} {inst : Instance} {store after : Store}

/-- An instance stays one, whatever comes to the store. -/
theorem Of.extends (h : inst.Of m store) (hextends : store.Extends after) : inst.Of m after where
  types := h.types
  functions := by
    obtain ⟨base, hspace, hfunctions⟩ := h.functions
    refine ⟨base, hspace, fun k index body hindex hbody => ?_⟩
    obtain ⟨type, function, htype, hfunction, hruns⟩ := hfunctions k index body hindex hbody
    exact ⟨type, function, htype, hextends.functions hfunction, hruns⟩
  tables := by
    obtain ⟨base, hspace, htables⟩ := h.tables
    refine ⟨base, hspace, fun k type hk => ?_⟩
    obtain ⟨table, htable, helement, hle⟩ := htables k type hk
    obtain ⟨table', htable', hextended⟩ := hextends.tables htable
    exact ⟨table', htable', hextended.element_eq.trans helement, hextended.le_maxSlots hle⟩
  memories := by
    obtain ⟨base, hspace, hmemories⟩ := h.memories
    refine ⟨base, hspace, fun k hk => ?_⟩
    obtain ⟨memory, hmemory⟩ := hmemories k hk
    obtain ⟨memory', hmemory', -⟩ := hextends.memories hmemory
    exact ⟨memory', hmemory'⟩
  globals := by
    obtain ⟨base, hspace, hglobals⟩ := h.globals
    refine ⟨base, hspace, fun k global hk => ?_⟩
    obtain ⟨cell, hcell, htype⟩ := hglobals k global hk
    obtain ⟨cell', hcell', htype'⟩ := hextends.globals hcell
    exact ⟨cell', hcell', htype'.trans htype⟩
  exports := h.exports
  exports_found := h.exports_found

end Instance

/-! ### Modules that are decoded in full -/

theorem List.getElem?_of_mapM {α β : Type} {f : α → Option β} {list : List α} {result : List β}
    (h : list.mapM f = some result) {i : Nat} {a : α} (ha : list[i]? = some a) :
    ∃ b, f a = some b ∧ result[i]? = some b := by
  induction list generalizing result i with
  | nil => cases ha
  | cons first list ih =>
    rw [List.mapM_cons] at h
    simp only [Option.bind_eq_bind, Option.bind_eq_some_iff] at h
    obtain ⟨b, hb, rest, hrest, h⟩ := h
    cases h
    cases i with
    | zero => cases ha; exact ⟨b, hb, rfl⟩
    | succ i => exact ih hrest ha

namespace Reader

variable {α β : Type} {item : Reader α} {finer : Reader β} {f : α → Option β}

/-- The second reader reads what the first one does, and makes more of it. -/
def Refines (item : Reader α) (f : α → Option β) (finer : Reader β) : Prop :=
  ∀ ⦃input rest b⦄, finer input = some (b, rest) → ∃ a, item input = some (a, rest) ∧ f a = some b

theorem Refines.times (h : Refines item f finer) {n : Nat} {input rest : Bytes} {values : List β}
    (hread : times finer n input = some (values, rest)) :
    ∃ raw, times item n input = some (raw, rest) ∧ raw.mapM f = some values := by
  induction n generalizing input values with
  | zero => cases hread; exact ⟨[], rfl, rfl⟩
  | succ n ih =>
    obtain ⟨value, middle, others, hvalue, hothers, rfl⟩ := times_succ_eq_some hread
    obtain ⟨first, hfirst, hf⟩ := h hvalue
    obtain ⟨raw, hraw, hmap⟩ := ih hothers
    refine ⟨first :: raw, ?_, by rw [List.mapM_cons, hf, hmap]; rfl⟩
    rw [Reader.times, bind_of_eq_some hfirst, bind_of_eq_some hraw]
    rfl

theorem Refines.whole_counted (h : Refines item f finer) {contents : Bytes} {values : List β}
    (hread : (counted finer).whole contents = some values) :
    ∃ raw, (counted item).whole contents = some raw ∧ raw.mapM f = some values := by
  obtain ⟨entries, hsize, htimes⟩ := counted_eq_some (whole_eq_some hread)
  obtain ⟨raw, hraw, hmap⟩ := h.times htimes
  refine ⟨raw, whole_of_eq_some ?_, hmap⟩
  rw [counted, bind_of_eq_some hsize, hraw]

end Reader

/-- The code of a body is made of the bytes of the body. -/
theorem Instr.refines_readBody :
    Reader.Refines Outline.readOpaqueBody Instr.readCode.whole Instr.readBody := by
  intro input rest code h
  unfold readBody Reader.sized at h
  obtain ⟨size, middle, hsize, h⟩ := Reader.bind_eq_some h
  obtain ⟨body, after, hbody, h⟩ := Reader.bind_eq_some h
  cases hwhole : readCode.whole body with
  | none => simp only [hwhole] at h; cases h
  | some code' =>
    simp only [hwhole] at h
    cases h
    exact ⟨body, by rw [Outline.readOpaqueBody, Reader.bind_of_eq_some hsize, hbody], hwhole⟩

/-- Where a table is declared by its type alone, the first byte is that of a reference type. -/
theorem Declarations.refines_readTable : Reader.Refines readTable some TableType.read := by
  intro input rest type h
  cases input with
  | nil => cases h
  | cons b input =>
    have hb : b ≠ 0x40 := by
      rintro rfl
      cases h
    have hpeek : Reader.peek (b :: input) = some (b, b :: input) := rfl
    exact ⟨type, by rw [readTable, Reader.bind_of_eq_some hpeek, if_neg hb, h], rfl⟩

namespace Module

variable {m : Module} {sections : List Section}

theorem entries?_refined {α β : Type} {item : Reader α} {finer : Reader β} {f : α → Option β}
    (hrefines : Reader.Refines item f finer) {kind : SectionKind} {values : List β}
    (h : entries? sections kind finer = some values) :
    ∃ raw, entries? sections kind item = some raw ∧ raw.mapM f = some values := by
  have hparts (same : List Section) {parts : List (List β)}
      (hparts : (same.mapM fun s => (Reader.counted finer).whole s.contents) = some parts) :
      ∃ raws, (same.mapM fun s => (Reader.counted item).whole s.contents) = some raws ∧
        raws.flatten.mapM f = some parts.flatten := by
    induction same generalizing parts with
    | nil => cases hparts; exact ⟨[], rfl, rfl⟩
    | cons s same ih =>
      rw [List.mapM_cons] at hparts
      obtain ⟨part, hpart, hparts⟩ := Option.bind_eq_some_iff.1 hparts
      obtain ⟨others, hothers, hparts⟩ := Option.bind_eq_some_iff.1 hparts
      cases hparts
      obtain ⟨raw, hraw, hmap⟩ := hrefines.whole_counted hpart
      obtain ⟨raws, hraws, hmaps⟩ := ih hothers
      refine ⟨raw :: raws, by rw [List.mapM_cons, hraw, hraws]; rfl, ?_⟩
      rw [List.flatten_cons, List.mapM_append, hmap, hmaps]
      rfl
  obtain ⟨parts, hread, hvalues⟩ := Option.bind_eq_some_iff.1 h
  cases hvalues
  obtain ⟨raws, hraws, hmap⟩ := hparts _ hread
  exact ⟨raws.flatten, by rw [entries?, hraws]; rfl, hmap⟩

/-- A module that is decoded in full, code and all, and what it declares. -/
structure Declares (m : Module) (declared : Declarations) : Prop where
  types : declared.types = m.types
  imports : declared.imports = m.imports
  functions : declared.functions = m.functions
  globals : declared.globals = m.globals
  tables : declared.tables = m.tables
  memories : declared.memories = m.memories.length
  exports : declared.exports = m.exports
  code : declared.bodies.mapM Instr.readCode.whole = some m.code

/-- Whatever is decoded in full declares something. -/
theorem exists_declares (h : ofSections? sections = some m) :
    ∃ declared, Declarations.ofSections? sections = some declared ∧ m.Declares declared := by
  simp only [ofSections?, Option.bind_eq_bind, Option.bind_eq_some_iff] at h
  obtain ⟨groups, hgroups, imports, himports, functions, hfunctions, tables, htables, memories,
    hmemories, globals, hglobals, exports, hexports, start, -, elements, -, code, hcode, data, -,
    h⟩ := h
  cases h
  obtain ⟨bodies, hbodies, hmap⟩ := entries?_refined Instr.refines_readBody hcode
  obtain ⟨tables', htables', hsame⟩ := entries?_refined Declarations.refines_readTable htables
  have hpure : tables'.mapM some = some (tables'.map id) := List.mapM_pure
  rw [hsame, List.map_id] at hpure
  cases hpure
  let declared : Declarations := {
    types := groups.flatten.map (·.composite)
    imports, functions, globals, bodies, tables
    memories := Outline.announced .memories sections
    exports }
  refine ⟨declared, ?_, ⟨rfl, rfl, rfl, rfl, rfl, Outline.announced_of_entries? hmemories, rfl,
    hmap⟩⟩
  simp only [Declarations.ofSections?, Layout.ofSections?, hgroups, himports, hfunctions, hglobals,
    hbodies, htables', hexports, Option.bind_eq_bind, Option.bind_some]
  rfl

theorem exists_sections {bytes : Bytes} (h : ofBytes? bytes = some m) :
    ∃ sections, Section.readModule bytes = .ok sections ∧ ofSections? sections = some m := by
  unfold ofBytes? at h
  split at h
  · next rest hencoding =>
    obtain ⟨sections, hsections, hm⟩ := Option.bind_eq_some_iff.1 h
    exact ⟨sections, by rw [Section.readModule, hencoding]; simp only [hsections], hm⟩
  · cases h

/-- What can be run here declares something. -/
theorem declares_of_compile? {bytes : Bytes} (h : compile? bytes = some m) :
    ∃ declared, Declarations.ofBytes? bytes = some declared ∧ m.Declares declared ∧
      m.isConsistent = true := by
  obtain ⟨m', hm, h⟩ := Option.bind_eq_some_iff.1 h
  obtain ⟨_, hguard, h⟩ := Option.bind_eq_some_iff.1 h
  cases h
  obtain ⟨sections, hread, hm⟩ := exists_sections hm
  obtain ⟨declared, hdeclared, hdeclares⟩ := exists_declares hm
  refine ⟨declared, by rw [Declarations.ofBytes?_of_readModule hread, hdeclared], hdeclares, ?_⟩
  cases hconsistent : m.isConsistent with
  | true => rfl
  | false =>
    rw [hconsistent] at hguard
    cases hguard

theorem min_le_of_isConsistent (h : m.isConsistent = true) {type : TableType}
    (htype : type ∈ m.tables) : type.limits.min ≤ TableType.maxSlots := by
  simp only [isConsistent, Limits.within, Bool.and_eq_true, List.all_eq_true,
    decide_eq_true_eq] at h
  exact (h.1.2 type htype).1

end Module

/-- What is made of a module that is decoded in full is an instance of it. -/
theorem Instance.Built.of {m : Module} {declared : Declarations} {inst : Instance} {store : Store}
    (h : inst.Built m store) (hdeclares : m.Declares declared)
    (hconsistent : m.isConsistent = true) : inst.Of declared store where
  types := h.types.trans hdeclares.types.symm
  functions := by
    obtain ⟨base, hspace, hcode⟩ := h.functions
    rw [hdeclares.imports, hdeclares.functions, hdeclares.types]
    refine ⟨base, hspace, fun k index body hindex hbody => ?_⟩
    obtain ⟨code, hread, hk⟩ := List.getElem?_of_mapM hdeclares.code hbody
    obtain ⟨type, htype, hfunction⟩ := hcode k index code hindex hk
    refine ⟨type, _, htype, hfunction, rfl, fun code' hread' => ?_⟩
    rw [hread] at hread'
    cases hread'
    rfl
  tables := by
    obtain ⟨base, hspace, htables⟩ := h.tables
    rw [hdeclares.imports, hdeclares.tables]
    refine ⟨base, hspace, fun k type hk => ?_⟩
    obtain ⟨table, htable, hextended⟩ := htables k type hk
    refine ⟨table, htable, hextended.element_eq, hextended.le_maxSlots ?_⟩
    rw [Table.ofType, Array.size_replicate]
    exact Module.min_le_of_isConsistent hconsistent (List.mem_of_getElem? hk)
  memories := by
    obtain ⟨base, hspace, hmemories⟩ := h.memories
    rw [hdeclares.imports, hdeclares.memories]
    exact ⟨base, hspace, fun k hk => hmemories k _ (List.getElem?_eq_getElem hk)⟩
  globals := by rw [hdeclares.imports, hdeclares.globals]; exact h.globals
  exports := by rw [hdeclares.exports]; exact List.eq_filterMap_of_mapM h.exports
  exports_found e he := by
    obtain ⟨i, hi⟩ := List.mem_iff_getElem?.1 (hdeclares.exports ▸ he)
    obtain ⟨entry, hentry, -⟩ := List.getElem?_of_mapM h.exports hi
    obtain ⟨item, hitem, -⟩ := Option.map_eq_some_iff.1 hentry
    exact .inr (by rw [hitem]; rfl)

end WasmSnapshot
