import WasmSnapshot.Proofs.Instrument.Declarations

/-! What an instance of an equipped module exposes. Its accessors are those that the module was given:
its first memory and table, its functions under their indices, and for each exposed global the
functions that read and write it. This stays so whatever happens to the store. -/

namespace WasmSnapshot

/-- Whether the module has a memory of its own that is selected. -/
def Selection.exposesMemory (selection : Selection) (original : Declarations) : Bool :=
  selection.memory && 0 < original.memories

/-- Whether the module has a table of its own that is selected. -/
def Selection.exposesTable (selection : Selection) (original : Declarations) : Bool :=
  selection.table && 0 < original.tables.length

/-- The first memory of the module itself, if it is exposed. -/
def Selection.memory? (selection : Selection) (original : Declarations) (scope : Scope) :
    Option Address :=
  if selection.exposesMemory original then
    scope.memories[Import.count .memory original.imports]?
  else none

/-- The first table of the module itself, if it is exposed. -/
def Selection.table? (selection : Selection) (original : Declarations) (scope : Scope) :
    Option Address :=
  if selection.exposesTable original then
    scope.tables[Import.count .table original.imports]?
  else none

/-- The function at `address` is the one of the module itself that has the given index. -/
def Declarations.OwnFunction (original : Declarations) (scope : Scope) (index : UInt32)
    (address : Address) : Prop :=
  Import.count .func original.imports ≤ index.toNat ∧
  index.toNat < Import.count .func original.imports + original.functions.length ∧
  scope.functions[index.toNat]? = some address

/-- Through its accessors an instance exposes what is selected of the state of its module. -/
structure Instance.Exposes (selection : Selection) (symbol : String) (original : Declarations)
    (inst : Instance) (store : Store) : Prop where
  memory : (AccessorExports.ofInstance symbol inst).memory =
    selection.memory? original inst.scope
  table : (AccessorExports.ofInstance symbol inst).table = selection.table? original inst.scope
  mem_functions {index : UInt32} {address : Address} :
    (index, address) ∈ (AccessorExports.ofInstance symbol inst).functions.entries ↔
      original.OwnFunction inst.scope index address
  /-- An accessor of a global is a function for an exposed one. -/
  sound {accessor : Accessor} {address : Address} :
    (accessor, address) ∈ (AccessorExports.ofInstance symbol inst).globals →
    ∃ index type function,
      selection.exposed? original.imports original.globals index = some type ∧
      function ∈ type.accessorFunctions index ∧ function.accessor = accessor ∧
      store.functions[address]? = some (.code function.signature.type inst.scope function.code)
  /-- An exposed global has all its accessors. -/
  complete {index : UInt32} {type : IntType} {function : AccessorFunction} :
    selection.exposed? original.imports original.globals index = some type →
    function ∈ type.accessorFunctions index →
    ∃ address, (function.accessor, address) ∈ (AccessorExports.ofInstance symbol inst).globals
  ownFunction_injective {index other : UInt32} {address : Address} :
    original.OwnFunction inst.scope index address →
    original.OwnFunction inst.scope other address → index = other
  ownFunction_found {index : UInt32} : Import.count .func original.imports ≤ index.toNat →
    index.toNat < Import.count .func original.imports + original.functions.length →
    ∃ address, original.OwnFunction inst.scope index address
  memory_found : selection.exposesMemory original = true → ∃ address memory,
    selection.memory? original inst.scope = some address ∧
    store.memories[address]? = some memory
  table_found : selection.exposesTable original = true → ∃ address table,
    selection.table? original inst.scope = some address ∧ store.tables[address]? = some table ∧
    original.tables.head?.map (·.element) = some table.element ∧
    table.slots.size ≤ TableType.maxSlots
  index_lt {index : UInt32} {type : IntType} :
    selection.exposed? original.imports original.globals index = some type →
    index.toNat + 1 < 2 ^ 32
  global_found {index : UInt32} {type : IntType} :
    selection.exposed? original.imports original.globals index = some type →
    ∃ address cell, inst.scope.globals[index.toNat]? = some address ∧
      store.globals[address]? = some cell ∧ IntType.ofValueType? cell.type.value = some type
  global_injective {index other : UInt32} {type otherType : IntType} {address : Address} :
    selection.exposed? original.imports original.globals index = some type →
    selection.exposed? original.imports original.globals other = some otherType →
    inst.scope.globals[index.toNat]? = some address →
    inst.scope.globals[other.toNat]? = some address → index = other

variable {selection : Selection} {symbol : String} {bytes : Bytes} {sections spliced : List Section}
  {outline : Outline} {additions : Additions} {out : Instrumented} {original m : Declarations}
  {inst : Instance} {store : Store}

/-- What is exposed stays so while the store grows. -/
theorem Instance.Exposes.extends {after : Store}
    (h : inst.Exposes selection symbol original store) (hextends : store.Extends after) :
    inst.Exposes selection symbol original after where
  memory := h.memory
  table := h.table
  mem_functions := h.mem_functions
  sound hmem := by
    obtain ⟨index, type, function, hexposed, hfunction, haccessor, hcode⟩ := h.sound hmem
    exact ⟨index, type, function, hexposed, hfunction, haccessor, hextends.functions hcode⟩
  complete := h.complete
  ownFunction_injective := h.ownFunction_injective
  ownFunction_found := h.ownFunction_found
  memory_found hexposes := by
    obtain ⟨address, memory, haddress, hmemory⟩ := h.memory_found hexposes
    obtain ⟨memory', hmemory', -⟩ := hextends.memories hmemory
    exact ⟨address, memory', haddress, hmemory'⟩
  table_found hexposes := by
    obtain ⟨address, table, haddress, htable, helement, hle⟩ := h.table_found hexposes
    obtain ⟨table', htable', hextended⟩ := hextends.tables htable
    exact ⟨address, table', haddress, htable', by rw [helement, hextended.element_eq],
      hextended.le_maxSlots hle⟩
  index_lt := h.index_lt
  global_found hexposed := by
    obtain ⟨address, cell, haddress, hcell, htype⟩ := h.global_found hexposed
    obtain ⟨cell', hcell', htype'⟩ := hextends.globals hcell
    exact ⟨address, cell', haddress, hcell', by rw [htype', htype]⟩
  global_injective := h.global_injective

/-- The accessors of an instance, all at once. -/
theorem Declarations.Equipped.ofInstance_eq
    (hequipped : Declarations.Equipped selection symbol outline original m)
    (hnames : ∀ e ∈ original.exports, Accessor.ofExportName? symbol e.name = none)
    (hof : Instance.Of m inst store) : AccessorExports.ofInstance symbol inst = {
      memory := (if selection.memory then outline.memory else none).bind
        fun index => inst.scope.memories[index.toNat]?
      table := (if selection.table then outline.table else none).bind
        fun index => inst.scope.tables[index.toNat]?
      functions := (Additions.ownAddresses outline inst.scope).foldl
        (fun map entry => map.insert entry.1 entry.2) .empty
      globals := Additions.accessorAddresses selection outline inst.scope } := by
  have hothers : ∀ entry ∈ original.exports.filterMap (Additions.resolved inst.scope),
      Accessor.ofExportName? symbol entry.1 = none := by
    intro entry hmem
    obtain ⟨e, he, hentry⟩ := List.mem_filterMap.1 hmem
    obtain ⟨item, -, rfl⟩ := Option.map_eq_some_iff.1 hentry
    exact hnames e he
  have hglobals : ∀ entry ∈ Additions.accessorAddresses selection outline inst.scope,
      entry.1.global?.isSome = true := by
    intro entry hmem
    obtain ⟨position, function, hget, haccessor, -⟩ := Additions.mem_accessorAddresses.1 hmem
    obtain ⟨index, type, -, hfunction⟩ :=
      Additions.mem_accessorFunctions.1 (List.mem_of_getElem? hget)
    rw [← haccessor, IntType.global?_of_mem hfunction]
    rfl
  rw [AccessorExports.ofInstance, hof.exports, hequipped.exports, List.filterMap_append,
    List.filterMap_append, Additions.filterMap_itemExports, Additions.filterMap_functionExports,
    List.foldl_append, List.foldl_append, List.foldl_append, List.foldl_append,
    AccessorExports.foldl_add_of_none hothers, AccessorExports.foldl_add_memory,
    AccessorExports.foldl_add_table, AccessorExports.foldl_add_functions,
    AccessorExports.foldl_add_globals hglobals]
  simp

namespace Instrumented.Made

/-- The globals that get accessors are those that the module declares and that are exposed. -/
theorem exposed?_iff (hmade : Made selection symbol sections outline additions spliced out)
    (hframed : Section.Framed bytes sections)
    (horiginal : Declarations.ofSections? sections = some original) {index : UInt32}
    {type : IntType} : (index, type) ∈ Additions.exposedGlobals selection outline ↔
      selection.exposed? original.imports original.globals index = some type := by
  obtain ⟨hlayout, -⟩ := Declarations.ofSections?_eq_some horiginal
  obtain ⟨-, -, -, himports, -, hglobals, -⟩ := Layout.ofSections?_eq_some hlayout
  exact hmade.mem_exposedGlobals_iff hframed himports hglobals

section Functions

variable (hmade : Made selection symbol sections outline additions spliced out)
  (hframed : Section.Framed bytes sections)
  (horiginal : Declarations.ofSections? sections = some original)
  (hlength : original.functions.length = original.bodies.length)
  (hequipped : Declarations.Equipped selection symbol outline original m)
  (hof : inst.Of m store)

include hmade hframed horiginal hlength hequipped hof

/-- The function that was added at a place is found there in the store. -/
theorem accessor_found {position : Nat} {function : AccessorFunction}
    (hget : (Additions.accessorFunctions selection outline)[position]? = some function) :
    ∃ address, inst.scope.functions[
        (Additions.firstFunction outline + UInt32.ofNat position).toNat]? = some address ∧
      store.functions[address]? =
        some (.code function.signature.type inst.scope function.code) := by
  have hmem : function ∈ Additions.accessorFunctions selection outline := List.mem_of_getElem? hget
  obtain ⟨hposition, -⟩ := List.getElem?_eq_some_iff.1 hget
  obtain ⟨base, hspace, hfunctions⟩ := hof.functions
  obtain ⟨hlayout, -, -, -⟩ := Declarations.ofSections?_eq_some horiginal
  obtain ⟨groups, hgroups, htypes, himports, hindices, -, -⟩ := Layout.ofSections?_eq_some hlayout
  have hcounts := hmade.follows.countsImports hframed himports
  have hown := hmade.ownFunctions hframed hindices
  have htype := hmade.listed.getElem?_types hmem (hmade.typeCount hgroups)
  rw [← htypes, ← hequipped.types] at htype
  have hindex : m.functions[original.functions.length + position]? =
      some (outline.typeCount + function.signature.offset) := by
    rw [hequipped.functions, List.getElem?_append_right (Nat.le_add_right _ _),
      Nat.add_sub_cancel_left, List.getElem?_map, hget]
    rfl
  have hbody : m.bodies[original.functions.length + position]? = some function.body := by
    rw [hequipped.bodies, hlength, List.getElem?_append_right (Nat.le_add_right _ _),
      Nat.add_sub_cancel_left, List.getElem?_map, hget]
    rfl
  obtain ⟨type, callable, hfuncType, hfound, -, hruns⟩ := hfunctions _ _ _ hindex hbody
  rw [hruns _ (Instr.whole_readCode (Additions.readable_of_mem hmem).instr)] at hfound
  rw [Module.funcType?, htype] at hfuncType
  cases hfuncType
  obtain ⟨hlt, -⟩ := List.getElem?_eq_some_iff.1 hindex
  refine ⟨_, ?_, hfound⟩
  rw [hmade.toNat_functionIndex hposition, hcounts.functions, hown, Nat.add_assoc,
    ← hequipped.imports]
  exact hspace.getElem?_add hlt

theorem accessors_sound {accessor : Accessor} {address : Address}
    (hmem : (accessor, address) ∈ Additions.accessorAddresses selection outline inst.scope) :
    ∃ index type function,
      selection.exposed? original.imports original.globals index = some type ∧
      function ∈ type.accessorFunctions index ∧ function.accessor = accessor ∧
      store.functions[address]? = some (.code function.signature.type inst.scope function.code) := by
  obtain ⟨position, function, hget, haccessor, haddress⟩ := Additions.mem_accessorAddresses.1 hmem
  obtain ⟨index, type, hexposed, hfunction⟩ :=
    Additions.mem_accessorFunctions.1 (List.mem_of_getElem? hget)
  obtain ⟨address', haddress', hcode⟩ :=
    hmade.accessor_found hframed horiginal hlength hequipped hof hget
  rw [haddress] at haddress'
  cases haddress'
  exact ⟨index, type, function, (hmade.exposed?_iff hframed horiginal).1 hexposed, hfunction,
    haccessor, hcode⟩

theorem accessors_complete {index : UInt32} {type : IntType} {function : AccessorFunction}
    (hexposed : selection.exposed? original.imports original.globals index = some type)
    (hfunction : function ∈ type.accessorFunctions index) :
    ∃ address, (function.accessor, address) ∈
      Additions.accessorAddresses selection outline inst.scope := by
  have hmem := Additions.mem_accessorFunctions.2
    ⟨index, type, (hmade.exposed?_iff hframed horiginal).2 hexposed, hfunction⟩
  obtain ⟨position, hget⟩ := List.mem_iff_getElem?.1 hmem
  obtain ⟨address, haddress, -⟩ :=
    hmade.accessor_found hframed horiginal hlength hequipped hof hget
  exact ⟨address, Additions.mem_accessorAddresses.2 ⟨position, function, hget, rfl, haddress⟩⟩

end Functions

variable (hmade : Made selection symbol sections outline additions spliced out)
  (hframed : Section.Framed bytes sections)
  (horiginal : Declarations.ofSections? sections = some original)

include hmade hframed horiginal

theorem memory?_eq (scope : Scope) : ((if selection.memory then outline.memory else none).bind
    fun index => scope.memories[index.toNat]?) = selection.memory? original scope := by
  obtain ⟨hlayout, -, hmemories, -⟩ := Declarations.ofSections?_eq_some horiginal
  obtain ⟨-, -, -, himports, -⟩ := Layout.ofSections?_eq_some hlayout
  have hcounts := hmade.follows.countsImports hframed himports
  have htells := hmade.follows.tells .memories
  simp only [Outline.Tells, ← hmemories] at htells
  rw [htells, Selection.memory?, Selection.exposesMemory]
  by_cases hmemory : 0 < original.memories <;> cases selection.memory <;>
    simp [hmemory, hcounts.memories]

theorem table?_eq (scope : Scope) : ((if selection.table then outline.table else none).bind
    fun index => scope.tables[index.toNat]?) = selection.table? original scope := by
  obtain ⟨hlayout, htables, -⟩ := Declarations.ofSections?_eq_some horiginal
  obtain ⟨-, -, -, himports, -⟩ := Layout.ofSections?_eq_some hlayout
  have hcounts := hmade.follows.countsImports hframed himports
  have htells := hmade.follows.tells .tables
  simp only [Outline.Tells, Outline.announced_of_entries? htables] at htells
  rw [htells, Selection.table?, Selection.exposesTable]
  by_cases htable : 0 < original.tables.length <;> cases selection.table <;>
    simp [htable, hcounts.tables]

theorem mem_ownAddresses_iff {scope : Scope} {index : UInt32} {address : Address} :
    (index, address) ∈ Additions.ownAddresses outline scope ↔
      original.OwnFunction scope index address := by
  obtain ⟨hlayout, -⟩ := Declarations.ofSections?_eq_some horiginal
  obtain ⟨-, -, -, himports, hfunctions, -⟩ := Layout.ofSections?_eq_some hlayout
  have hcounts := hmade.follows.countsImports hframed himports
  have hown := hmade.ownFunctions hframed hfunctions
  have hlt := hmade.listed.indices_lt
  rw [Additions.mem_ownAddresses, Additions.mem_ownFunctions (by omega), hcounts.functions, hown,
    and_assoc]
  rfl

/-- Every instance of a module that was equipped exposes what is selected. -/
theorem exposes (hlength : original.functions.length = original.bodies.length)
    (hnames : ∀ e ∈ original.exports, Accessor.ofExportName? symbol e.name = none)
    (hequipped : Declarations.Equipped selection symbol outline original m)
    (hof : inst.Of m store) : inst.Exposes selection symbol original store := by
  have heq := hequipped.ofInstance_eq hnames hof
  obtain ⟨hlayout, -⟩ := Declarations.ofSections?_eq_some horiginal
  obtain ⟨-, -, -, himports, -, hownGlobals, -⟩ := Layout.ofSections?_eq_some hlayout
  obtain ⟨firstFunction, hfunctions, -⟩ := hof.functions
  obtain ⟨firstTable, htables, htables'⟩ := hof.tables
  obtain ⟨firstMemory, hmemories, hmemories'⟩ := hof.memories
  obtain ⟨firstGlobal, hglobals, hglobals'⟩ := hof.globals
  rw [hequipped.imports] at hfunctions htables hmemories hglobals
  rw [hequipped.tables] at htables htables'
  rw [hequipped.memories] at hmemories hmemories'
  rw [hequipped.globals] at hglobals hglobals'
  exact {
    memory := by rw [heq]; exact hmade.memory?_eq hframed horiginal inst.scope
    table := by rw [heq]; exact hmade.table?_eq hframed horiginal inst.scope
    mem_functions := by
      intro index address
      rw [heq, IndexMap.mem_foldl_insert, hmade.mem_ownAddresses_iff hframed horiginal]
      · exact or_iff_left fun h => by cases h.2
      · intro other a b ha hb
        rw [Additions.mem_ownAddresses] at ha hb
        exact Option.some.inj (ha.2.symm.trans hb.2)
    sound := by
      intro accessor address hmem
      rw [heq] at hmem
      exact hmade.accessors_sound hframed horiginal hlength hequipped hof hmem
    complete := by
      intro index type function hexposed hfunction
      rw [heq]
      exact hmade.accessors_complete hframed horiginal hlength hequipped hof hexposed hfunction
    ownFunction_injective := by
      intro index other address hindex hother
      exact UInt32.toNat_inj.1 (hfunctions.index_injective hindex.1 hother.1 hindex.2.2 hother.2.2)
    ownFunction_found := by
      intro index hle hlt
      have hlt' : index.toNat < Import.count .func original.imports + m.functions.length := by
        rw [hequipped.functions, List.length_append]
        omega
      exact ⟨_, hle, hlt, hfunctions.getElem?_of_le hle hlt'⟩
    memory_found := by
      intro hexposes
      have hown := hexposes
      simp only [Selection.exposesMemory, Bool.and_eq_true, decide_eq_true_eq] at hown
      obtain ⟨memory, hmemory⟩ := hmemories' 0 hown.2
      refine ⟨firstMemory, memory, ?_, hmemory⟩
      rw [Selection.memory?, if_pos hexposes]
      exact hmemories.getElem?_add hown.2
    table_found := by
      intro hexposes
      have hown := hexposes
      simp only [Selection.exposesTable, Bool.and_eq_true, decide_eq_true_eq] at hown
      obtain ⟨type, others, hcons⟩ := List.exists_cons_of_length_pos hown.2
      obtain ⟨table, htable, helement, hle⟩ := htables' 0 type (by rw [hcons]; rfl)
      refine ⟨firstTable, table, ?_, htable, by rw [hcons, helement]; rfl, hle⟩
      rw [Selection.table?, if_pos hexposes]
      exact htables.getElem?_add hown.2
    index_lt := by
      intro index type hexposed
      obtain ⟨hle, global, hget, -⟩ := Selection.exposed?_eq_some.1 hexposed
      obtain ⟨hlt, -⟩ := List.getElem?_eq_some_iff.1 hget
      have := hframed.length_globals_lt himports hownGlobals
      have := Import.count_le_length .global original.imports
      omega
    global_found := by
      intro index type hexposed
      obtain ⟨hle, global, hget, -, htype⟩ := Selection.exposed?_eq_some.1 hexposed
      obtain ⟨hlt, -⟩ := List.getElem?_eq_some_iff.1 hget
      obtain ⟨cell, hcell, hcellType⟩ := hglobals' _ _ hget
      exact ⟨_, cell, hglobals.getElem?_of_le hle (by omega), hcell, by rw [hcellType, htype]⟩
    global_injective := by
      intro index other type otherType address hindex hother haddress haddress'
      obtain ⟨hle, -⟩ := Selection.exposed?_eq_some.1 hindex
      obtain ⟨hle', -⟩ := Selection.exposed?_eq_some.1 hother
      exact UInt32.toNat_inj.1 (hglobals.index_injective hle hle' haddress haddress') }

end Instrumented.Made

/-- A file of less than `2 ^ 32` bytes with its sections in order and as many bodies as functions,
whatever code they hold, and what it declares before and after it was given accessors. No export of
its own is taken for one of them. -/
structure Prepared (selection : Selection) (symbol : String) (bytes : Bytes)
    (sections : List Section) (original m : Declarations) : Prop where
  framed : Section.Framed bytes sections
  decoded : Declarations.ofSections? sections = some original
  functions : original.functions.length = original.bodies.length
  names : ∀ e ∈ original.exports, Accessor.ofExportName? symbol e.name = none
  instrumented : ∃ out, instrument selection symbol bytes = .ok out ∧
    Declarations.ofBytes? out.bytes = some m

/-- Every instance exposes what is selected, whatever has come to the store. -/
theorem Prepared.exposes (h : Prepared selection symbol bytes sections original m)
    (hof : inst.Of m store) : inst.Exposes selection symbol original store := by
  obtain ⟨out, hout, hm⟩ := h.instrumented
  obtain ⟨outline, additions, spliced, hmade⟩ :=
    made_of_instrument h.framed.read h.framed.ordered hout
  rw [Declarations.ofBytes?_of_readModule hmade.read] at hm
  exact hmade.exposes h.framed h.decoded h.functions h.names
    (hmade.equipped h.framed h.decoded hm) hof

/-- A module whose function never returns, but puts null into a slot of the table over and over. -/
def loopingSections : List Section := [
  ⟨1, [1, 0x60, 0, 0]⟩,
  ⟨3, [1, 0]⟩,
  ⟨4, [1, 0x70, 0, 1]⟩,
  ⟨10, [1, 13, 0, 0x03, 0x40, 0x41, 0, 0xd0, 0x70, 0x26, 0, 0x0c, 0, 0x0b, 0x0b]⟩]

def loopingDeclarations : Declarations where
  types := [.func ⟨[], []⟩]
  imports := []
  functions := [0]
  globals := []
  bodies := [[0, 0x03, 0x40, 0x41, 0, 0xd0, 0x70, 0x26, 0, 0x0c, 0, 0x0b, 0x0b]]
  tables := [⟨.func, ⟨1, none⟩⟩]
  memories := 0
  exports := []

def loopingEquipped : Declarations :=
  { loopingDeclarations with
    types := .func ⟨[], []⟩ :: Signature.inOrder.map fun s => .func s.type
    exports := [⟨"_table", .table, 0⟩, ⟨"_func_0", .func, 0⟩] }

def loopingInstance : Instance where
  scope := ⟨loopingEquipped.types, [0], [0], [], []⟩
  exports := [("_table", .table 0), ("_func_0", .function 0)]

-- A loop is not code that is known here, so the function is one of those that may do as they like.
example : Prepared .all "_" (Section.encodeModule loopingSections) loopingSections
      loopingDeclarations loopingEquipped ∧
    loopingInstance.Of loopingEquipped
      { functions := #[.foreign ⟨[], []⟩], tables := #[⟨.func, #[some 0], none⟩] } := by
  obtain ⟨out, hout⟩ := Except.exists_of_isOk
    (x := instrument .all "_" (Section.encodeModule loopingSections)) (by decide +kernel)
  have hm : (instrument .all "_" (Section.encodeModule loopingSections)).toOption.bind
      (Declarations.ofBytes? ·.bytes) = some loopingEquipped := by decide +kernel
  rw [hout] at hm
  have hunknown : Instr.readCode.whole [0, 0x03, 0x40, 0x41, 0, 0xd0, 0x70, 0x26, 0, 0x0c, 0, 0x0b,
      0x0b] = none := by decide +kernel
  refine ⟨{
    framed := ⟨Section.readModule_encodeModule (by decide +kernel), by decide +kernel,
      by unfold Section.Ordered; decide +kernel⟩
    decoded := by decide +kernel
    functions := rfl
    names := List.forall_mem_nil _
    instrumented := ⟨out, hout, hm⟩ }, {
    types := rfl
    functions := ⟨0, ⟨[], rfl, rfl⟩, ?_⟩
    tables := ⟨0, ⟨[], rfl, rfl⟩, ?_⟩
    memories := ⟨0, ⟨[], rfl, rfl⟩, fun k hk => absurd hk (Nat.not_lt_zero k)⟩
    globals := ⟨0, ⟨[], rfl, rfl⟩, fun k global hk => by cases hk⟩
    exports := by decide +kernel
    exports_found := by decide +kernel }⟩
  · intro k index body hindex hbody
    cases k with
    | zero =>
      cases hindex
      cases hbody
      exact ⟨_, _, rfl, rfl, rfl, fun code hcode => by rw [hunknown] at hcode; cases hcode⟩
    | succ k => cases hindex
  · intro k type hk
    cases k with
    | zero => cases hk; exact ⟨_, rfl, rfl, by decide⟩
    | succ k => cases hk

end WasmSnapshot
