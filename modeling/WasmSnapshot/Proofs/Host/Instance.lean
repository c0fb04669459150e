import WasmSnapshot.Proofs.Host.Exec
import WasmSnapshot.Proofs.Instrument.Outline

/-! Making an instance of a module that is decoded in full. What comes of it is the scope of the
instance, its own items in the store, each at the address that the scope has for it, and its exports.
This stays so as long as the store only grows. -/

namespace WasmSnapshot

namespace Instance

/-- The addresses of an index space: some of imported items, then `own` addresses from `base` on. -/
def OwnSpace (space : List Address) (imported own base : Nat) : Prop :=
  ∃ before : List Address, before.length = imported ∧ space = before ++ nextAddresses base own

namespace OwnSpace

variable {space : List Address} {imported own base : Nat}

theorem length_eq (h : OwnSpace space imported own base) : space.length = imported + own := by
  obtain ⟨before, rfl, rfl⟩ := h
  simp [nextAddresses]

theorem getElem?_add (h : OwnSpace space imported own base) {k : Nat} (hk : k < own) :
    space[imported + k]? = some (base + k) := by
  obtain ⟨before, rfl, rfl⟩ := h
  simp [nextAddresses, hk]

theorem getElem?_of_le (h : OwnSpace space imported own base) {i : Nat} (hi : imported ≤ i)
    (hlt : i < imported + own) : space[i]? = some (base + (i - imported)) := by
  have hk := h.getElem?_add (show i - imported < own by omega)
  rwa [Nat.add_sub_cancel' hi] at hk

theorem eq_of_getElem? (h : OwnSpace space imported own base) {i a : Nat}
    (hi : imported ≤ i) (ha : space[i]? = some a) : i < imported + own ∧ a + imported = base + i := by
  obtain ⟨hlt, -⟩ := List.getElem?_eq_some_iff.1 ha
  rw [h.length_eq] at hlt
  rw [h.getElem?_of_le hi hlt] at ha
  cases ha
  omega

/-- Own items have addresses of their own. -/
theorem index_injective (h : OwnSpace space imported own base) {i j a : Nat}
    (hi : imported ≤ i) (hj : imported ≤ j) (hia : space[i]? = some a) (hja : space[j]? = some a) :
    i = j := by
  have := (h.eq_of_getElem? hi hia).2
  have := (h.eq_of_getElem? hj hja).2
  omega

end OwnSpace

/-- An instance as it is made of a module that is decoded in full. -/
structure Built (m : Module) (inst : Instance) (store : Store) : Prop where
  types : inst.scope.types = m.types
  functions : ∃ base,
    OwnSpace inst.scope.functions (Import.count .func m.imports) m.functions.length base ∧
    ∀ k type code, m.functions[k]? = some type → m.code[k]? = some code →
      ∃ functionType, Module.funcType? m.types type = some functionType ∧
        store.functions[base + k]? = some (.code functionType inst.scope code)
  tables : ∃ base, OwnSpace inst.scope.tables (Import.count .table m.imports) m.tables.length base ∧
    ∀ k type, m.tables[k]? = some type → ∃ table, store.tables[base + k]? = some table ∧
      (Table.ofType type).Extends table
  memories : ∃ base,
    OwnSpace inst.scope.memories (Import.count .memory m.imports) m.memories.length base ∧
    ∀ k type, m.memories[k]? = some type → ∃ memory, store.memories[base + k]? = some memory
  globals : ∃ base,
    OwnSpace inst.scope.globals (Import.count .global m.imports) m.globals.length base ∧
    ∀ k global, m.globals[k]? = some global →
      ∃ cell, store.globals[base + k]? = some cell ∧ cell.type = global.type
  exports : m.exports.mapM (fun e => (e.name, ·) <$> externOf? inst.scope e) = some inst.exports

theorem Built.extends {m : Module} {inst : Instance} {store after : Store} (h : Built m inst store)
    (hextends : store.Extends after) : Built m inst after where
  types := h.types
  functions := by
    obtain ⟨base, hspace, hcode⟩ := h.functions
    refine ⟨base, hspace, fun k type code htype hk => ?_⟩
    obtain ⟨functionType, hfunc, hstore⟩ := hcode k type code htype hk
    exact ⟨functionType, hfunc, hextends.functions hstore⟩
  tables := by
    obtain ⟨base, hspace, htables⟩ := h.tables
    refine ⟨base, hspace, fun k type hk => ?_⟩
    obtain ⟨table, htable, hfrom⟩ := htables k type hk
    obtain ⟨table', htable', hextended⟩ := hextends.tables htable
    exact ⟨table', htable', hfrom.trans hextended⟩
  memories := by
    obtain ⟨base, hspace, hmemories⟩ := h.memories
    refine ⟨base, hspace, fun k type hk => ?_⟩
    obtain ⟨memory, hmemory⟩ := hmemories k type hk
    obtain ⟨memory', hmemory', -⟩ := hextends.memories hmemory
    exact ⟨memory', hmemory'⟩
  globals := by
    obtain ⟨base, hspace, hglobals⟩ := h.globals
    refine ⟨base, hspace, fun k global hk => ?_⟩
    obtain ⟨cell, hcell, htype⟩ := hglobals k global hk
    obtain ⟨cell', hcell', htype'⟩ := hextends.globals hcell
    exact ⟨cell', hcell', htype'.trans htype⟩
  exports := h.exports

/-! ### Making an instance -/

variable {m : Module} {scope : Scope} {store after : Store}

/-- A loop that adds an item in each step. The items come one after another, and stay what they
are. -/
theorem added_of_forM {α : Type} {f : α → Run Unit} (size : Store → Nat)
    (holds : α → Store → Nat → Prop)
    (hstep : ∀ a (store after : Store), store.run (f a) = (.ok (), after) →
      store.Extends after ∧ size after = size store + 1 ∧ holds a after (size store))
    (hkeep : ∀ a i (store after : Store), store.Extends after → holds a store i → holds a after i)
    {list : List α} (h : store.run (list.forM f) = (.ok (), after)) :
    store.Extends after ∧ ∀ k a, list[k]? = some a → holds a after (size store + k) := by
  induction list generalizing store with
  | nil =>
    cases h
    exact ⟨Store.Extends.refl _, fun k a ha => by simp at ha⟩
  | cons first list ih =>
    obtain ⟨_, next, hfirst, hrest⟩ := Store.run_bind_eq_ok h
    obtain ⟨hextends, hsize, hholds⟩ := hstep first store next hfirst
    obtain ⟨hextends', hlist⟩ := ih hrest
    refine ⟨hextends.trans hextends', fun k a ha => ?_⟩
    cases k with
    | zero =>
      cases ha
      exact hkeep _ _ _ _ hextends' hholds
    | succ k =>
      have hk := hlist k a (by simpa using ha)
      rwa [hsize, Nat.add_assoc, Nat.add_comm 1 k] at hk

theorem run_addOwnFunction {function : UInt32 × List Instr}
    (h : store.run (addOwnFunction scope function) = (.ok (), after)) :
    ∃ type, Module.funcType? scope.types function.1 = some type ∧
      after = { store with functions := store.functions.push (.code type scope function.2) } := by
  obtain ⟨type, next, htype, hadd⟩ := Store.run_bind_eq_ok h
  obtain ⟨hsome, rfl⟩ := Run.run_require_eq_ok htype
  cases hadd
  exact ⟨type, hsome, rfl⟩

theorem run_addOwnGlobal [Host] {global : Global}
    (h : store.run (addOwnGlobal scope global) = (.ok (), after)) :
    ∃ next value, ∃ hasType : value.hasType global.type.value, store.Updates next ∧
      after = { next with globals := next.globals.push ⟨global.type, value, hasType⟩ } := by
  obtain ⟨value, next, hvalue, hadd⟩ := Store.run_bind_eq_ok h
  have hupdates : store.Updates next := Within.of_run hvalue
  split at hadd
  · next hasType =>
    cases hadd
    exact ⟨next, value, hasType, hupdates, rfl⟩
  · cases hadd

instance (function : Callable) :
    Within (Store.SameSize fun store => store.tables.size) (Run.addFunction function) :=
  ⟨fun _ => rfl⟩

instance (function : Callable) :
    Within (Store.SameSize fun store => store.memories.size) (Run.addFunction function) :=
  ⟨fun _ => rfl⟩

instance (function : Callable) :
    Within (Store.SameSize fun store => store.globals.size) (Run.addFunction function) :=
  ⟨fun _ => rfl⟩

instance (table : Table) :
    Within (Store.SameSize fun store => store.memories.size) (Run.addTable table) :=
  ⟨fun _ => rfl⟩

instance (table : Table) :
    Within (Store.SameSize fun store => store.globals.size) (Run.addTable table) :=
  ⟨fun _ => rfl⟩

instance (memory : Memory) :
    Within (Store.SameSize fun store => store.globals.size) (Run.addMemory memory) :=
  ⟨fun _ => rfl⟩

instance {R : Store → Store → Prop} [StoreOrder R] [∀ function, Within R (Run.addFunction function)]
    (function : UInt32 × List Instr) : Within R (addOwnFunction scope function) := by
  unfold addOwnFunction
  infer_instance

/-- The own items of a module, each at the address that the scope has for it. -/
structure Added (m : Module) (scope : Scope) (store after : Store) : Prop where
  extends_ : store.Extends after
  functions : ∀ k type code, m.functions[k]? = some type → m.code[k]? = some code →
    ∃ functionType, Module.funcType? scope.types type = some functionType ∧
      after.functions[store.functions.size + k]? = some (.code functionType scope code)
  tables : ∀ k type, m.tables[k]? = some type →
    ∃ table, after.tables[store.tables.size + k]? = some table ∧ (Table.ofType type).Extends table
  memories : ∀ k type, m.memories[k]? = some type →
    ∃ memory, after.memories[store.memories.size + k]? = some memory
  globals : ∀ k global, m.globals[k]? = some global →
    ∃ cell, after.globals[store.globals.size + k]? = some cell ∧ cell.type = global.type

theorem added_functions {functions : List (UInt32 × List Instr)}
    (h : store.run (functions.forM (addOwnFunction scope)) = (.ok (), after)) :
    store.Extends after ∧ ∀ k function, functions[k]? = some function →
      ∃ functionType, Module.funcType? scope.types function.1 = some functionType ∧
        after.functions[store.functions.size + k]? =
          some (.code functionType scope function.2) := by
  refine added_of_forM (fun store => store.functions.size)
    (fun function store i => ∃ functionType,
      Module.funcType? scope.types function.1 = some functionType ∧
        store.functions[i]? = some (.code functionType scope function.2))
    (fun function store after h => ?_)
    (fun function i store after hextends h => ?_) h
  · obtain ⟨type, htype, rfl⟩ := run_addOwnFunction h
    exact ⟨Store.Extends.pushed ⟨#[_], rfl⟩ ⟨#[], by simp⟩ ⟨#[], by simp⟩ ⟨#[], by simp⟩,
      Array.size_push .., type, htype, Array.getElem?_push_size⟩
  · obtain ⟨type, htype, hfunction⟩ := h
    exact ⟨type, htype, hextends.functions hfunction⟩

theorem added_tables {types : List TableType}
    (h : store.run (types.forM fun type => do let _address ← Run.addTable (.ofType type)) =
      (.ok (), after)) :
    store.Extends after ∧ ∀ k type, types[k]? = some type →
      ∃ table, after.tables[store.tables.size + k]? = some table ∧
        (Table.ofType type).Extends table := by
  refine added_of_forM (fun store => store.tables.size)
    (fun type store i => ∃ table, store.tables[i]? = some table ∧ (Table.ofType type).Extends table)
    (fun type store after h => ?_) (fun type i store after hextends h => ?_) h
  · cases h
    exact ⟨Store.Extends.pushed ⟨#[], by simp⟩ ⟨#[_], rfl⟩ ⟨#[], by simp⟩ ⟨#[], by simp⟩,
      Array.size_push .., _, Array.getElem?_push_size, .refl _⟩
  · obtain ⟨table, htable, hfrom⟩ := h
    obtain ⟨table', htable', hextended⟩ := hextends.tables htable
    exact ⟨table', htable', hfrom.trans hextended⟩

theorem added_memories {types : List MemoryType}
    (h : store.run (types.forM fun type => do let _address ← Run.addMemory (.ofType type)) =
      (.ok (), after)) :
    store.Extends after ∧ ∀ k type, types[k]? = some type →
      ∃ memory, after.memories[store.memories.size + k]? = some memory := by
  refine added_of_forM (fun store => store.memories.size)
    (fun _ store i => ∃ memory, store.memories[i]? = some memory) (fun type store after h => ?_)
    (fun type i store after hextends h => ?_) h
  · cases h
    exact ⟨Store.Extends.pushed ⟨#[], by simp⟩ ⟨#[], by simp⟩ ⟨#[_], rfl⟩ ⟨#[], by simp⟩,
      Array.size_push .., _, Array.getElem?_push_size⟩
  · obtain ⟨memory, hmemory⟩ := h
    obtain ⟨memory', hmemory', -⟩ := hextends.memories hmemory
    exact ⟨memory', hmemory'⟩

theorem added_globals [Host] {globals : List Global}
    (h : store.run (globals.forM (addOwnGlobal scope)) = (.ok (), after)) :
    store.Extends after ∧ ∀ k global, globals[k]? = some global →
      ∃ cell, after.globals[store.globals.size + k]? = some cell ∧ cell.type = global.type := by
  refine added_of_forM (fun store => store.globals.size)
    (fun global store i => ∃ cell, store.globals[i]? = some cell ∧ cell.type = global.type)
    (fun global store after h => ?_)
    (fun global i store after hextends h => ?_) h
  · obtain ⟨next, value, hasType, hupdates, rfl⟩ := run_addOwnGlobal h
    refine ⟨hupdates.toExtends.trans
      (Store.Extends.pushed ⟨#[], by simp⟩ ⟨#[], by simp⟩ ⟨#[], by simp⟩ ⟨#[_], rfl⟩), ?_, ?_⟩
    · simp [hupdates.globals_size]
    · rw [← hupdates.globals_size]
      exact ⟨_, Array.getElem?_push_size, rfl⟩
  · obtain ⟨cell, hcell, htype⟩ := h
    obtain ⟨cell', hcell', htype'⟩ := hextends.globals hcell
    exact ⟨cell', hcell', htype'.trans htype⟩

theorem added_of_addOwnItems [Host] (h : store.run (addOwnItems m scope) = (.ok (), after)) :
    Added m scope store after := by
  obtain ⟨_, withFunctions, hfunctions, h⟩ := Store.run_bind_eq_ok h
  obtain ⟨_, withTables, htables, h⟩ := Store.run_bind_eq_ok h
  obtain ⟨_, withMemories, hmemories, hglobals⟩ := Store.run_bind_eq_ok h
  -- No loop adds items for the loops after it.
  have htablesSize : store.SameSize (fun store => store.tables.size) withFunctions :=
    Within.of_run hfunctions
  have hmemoriesSize : store.SameSize (fun store => store.memories.size) withTables :=
    StoreOrder.trans (Within.of_run hfunctions) (Within.of_run htables)
  have hglobalsSize : store.SameSize (fun store => store.globals.size) withMemories :=
    StoreOrder.trans (Within.of_run hfunctions)
      (StoreOrder.trans (Within.of_run htables) (Within.of_run hmemories))
  rw [Store.SameSize] at htablesSize hmemoriesSize hglobalsSize
  obtain ⟨hextends1, hfunctions⟩ := added_functions hfunctions
  obtain ⟨hextends2, htables⟩ := added_tables htables
  obtain ⟨hextends3, hmemories⟩ := added_memories hmemories
  obtain ⟨hextends4, hglobals⟩ := added_globals hglobals
  have hextends34 := hextends3.trans hextends4
  have hextends24 := hextends2.trans hextends34
  refine ⟨hextends1.trans hextends24, fun k type code htype hcode => ?_, fun k type hk => ?_,
    fun k type hk => ?_, fun k global hk => ?_⟩
  · have hzip : (m.functions.zip m.code)[k]? = some (type, code) :=
      List.getElem?_zip_eq_some.2 ⟨htype, hcode⟩
    obtain ⟨functionType, hfunctionType, hfunction⟩ := hfunctions k _ hzip
    exact ⟨functionType, hfunctionType, hextends24.functions hfunction⟩
  · obtain ⟨table, htable, hfrom⟩ := htables k type hk
    obtain ⟨table', htable', hextended⟩ := hextends34.tables htable
    exact ⟨table', htablesSize ▸ htable', hfrom.trans hextended⟩
  · obtain ⟨memory, hmemory⟩ := hmemories k type hk
    obtain ⟨memory', hmemory', -⟩ := hextends4.memories hmemory
    exact ⟨memory', hmemoriesSize ▸ hmemory'⟩
  · exact hglobalsSize ▸ hglobals k global hk

/-- The item for an import is of the kind that is asked for. -/
theorem kind_of_importItem {types : List CompositeType} {provided : String → String → Option Extern}
    {item : Import} {found : Extern}
    (h : store.run (importItem types provided item) = (.ok found, after)) :
    found.kind = item.type.kind := by
  unfold importItem at h
  split at h
  · next known hknown =>
    rw [Store.run_bind_of_ok Store.run_get] at h
    split at h
    · next hkind =>
      cases h
      simpa using (Bool.and_eq_true_iff.1 hkind).2
    · cases h
  · cases htype : item.type with
    | func index =>
      rw [htype] at h
      obtain ⟨type, next, -, h⟩ := Store.run_bind_eq_ok h
      cases h
      rfl
    | table type => rw [htype] at h; cases h; rfl
    | memory type => rw [htype] at h; cases h; rfl
    | global type => rw [htype] at h; cases h; rfl
    | tag type => rw [htype] at h; cases h

theorem kinds_of_imports {types : List CompositeType} {provided : String → String → Option Extern}
    {imports : List Import} {imported : List Extern}
    (h : store.run (imports.mapM (importItem types provided)) = (.ok imported, after)) :
    imported.map Extern.kind = imports.map (·.type.kind) := by
  induction imports generalizing store imported with
  | nil => cases h; rfl
  | cons item imports ih =>
    rw [List.mapM_cons] at h
    obtain ⟨found, next, hfound, h⟩ := Store.run_bind_eq_ok h
    obtain ⟨others, last, hothers, h⟩ := Store.run_bind_eq_ok h
    cases h
    rw [List.map_cons, List.map_cons, kind_of_importItem hfound, ih hothers]

/-- How many imported items go into an index space. -/
theorem length_filterMap_imported {imports : List Import} {imported : List Extern}
    (h : imported.map Extern.kind = imports.map (·.type.kind)) {kind : ExternKind}
    {address? : Extern → Option Address}
    (haddress : ∀ item, (address? item).isSome = decide (item.kind = kind)) :
    (imported.filterMap address?).length = Import.count kind imports := by
  rw [List.length_filterMap_eq_countP, Import.count]
  have hcount : imported.countP (fun item => (address? item).isSome) =
      (imported.map Extern.kind).countP (· = kind) := by
    rw [List.countP_map]
    exact List.countP_congr fun item _ => by simp [haddress]
  rw [hcount, h, List.countP_map]
  rfl

theorem run_exportsOf {exports : List (String × Extern)}
    (h : store.run (exportsOf m scope) = (.ok exports, after)) :
    m.exports.mapM (fun e => (e.name, ·) <$> externOf? scope e) = some exports := by
  unfold exportsOf at h
  generalize m.exports = list at h
  induction list generalizing exports store with
  | nil => rw [List.mapM_nil] at h; cases h; rfl
  | cons e list ih =>
    rw [List.mapM_cons] at h
    obtain ⟨entry, next, hentry, h⟩ := Store.run_bind_eq_ok h
    obtain ⟨others, last, hothers, h⟩ := Store.run_bind_eq_ok h
    cases h
    obtain ⟨item, next', hitem, hentry⟩ := Store.run_bind_eq_ok hentry
    obtain ⟨hsome, -⟩ := Run.run_require_eq_ok hitem
    cases hentry
    rw [List.mapM_cons, hsome, ih hothers]
    rfl

/-- What comes of making an instance. -/
theorem built_of_ofModule [Host] {provided : String → String → Option Extern} {inst : Instance}
    (h : store.run (ofModule m provided) = (.ok inst, after)) : Built m inst after := by
  obtain ⟨imported, withImports, himports, h⟩ := Store.run_bind_eq_ok h
  obtain ⟨_, current, hget, h⟩ := Store.run_bind_eq_ok h
  cases hget
  obtain ⟨_, withItems, hitems, h⟩ := Store.run_bind_eq_ok h
  obtain ⟨exports, withExports, hexports, h⟩ := Store.run_bind_eq_ok h
  obtain ⟨_, withElements, helements, h⟩ := Store.run_bind_eq_ok h
  obtain ⟨_, withData, hdata, h⟩ := Store.run_bind_eq_ok h
  obtain ⟨_, started, hstart, h⟩ := Store.run_bind_eq_ok h
  cases h
  have hkinds := kinds_of_imports himports
  have hadded := added_of_addOwnItems hitems
  have hnew : Built m { scope := scopeOf m imported withImports, exports } withItems := {
    types := rfl
    functions := ⟨_, ⟨_, length_filterMap_imported hkinds fun item => by cases item <;> rfl, rfl⟩,
      hadded.functions⟩
    tables := ⟨_, ⟨_, length_filterMap_imported hkinds fun item => by cases item <;> rfl, rfl⟩,
      hadded.tables⟩
    memories := ⟨_, ⟨_, length_filterMap_imported hkinds fun item => by cases item <;> rfl, rfl⟩,
      hadded.memories⟩
    globals := ⟨_, ⟨_, length_filterMap_imported hkinds fun item => by cases item <;> rfl, rfl⟩,
      hadded.globals⟩
    exports := run_exportsOf hexports }
  have hexports' : withItems = withExports := Within.of_run hexports
  have helements' : withExports.Updates withElements := Within.of_run helements
  have hdata' : withElements.Updates withData := Within.of_run hdata
  have hstart' : withData.Extends after := Within.of_run hstart
  subst hexports'
  exact hnew.extends ((helements'.trans hdata').toExtends.trans hstart')

end Instance

end WasmSnapshot
