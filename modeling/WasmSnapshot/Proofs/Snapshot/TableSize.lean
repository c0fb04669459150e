import WasmSnapshot.Proofs.Accessor.Padded
import WasmSnapshot.Proofs.Snapshot.Order

/-! How long a table is once a snapshot has been restored, in any instance whatever. A snapshot that
records a function makes the table at least as long as its own, with null in the added slots that it
does not record. One that records none leaves the table as it is, however long its own was.

The globals are restored after the table, by calling functions that the instance exports for it. The
setters that a module is given change no table, but any function may be exported under such a name,
and one that changes tables changes what was restored. -/

namespace WasmSnapshot

/-- A table after entries were restored to it: its size, and what its slots hold. -/
structure Restore.Refilled (functions : IndexMap Address) (entries : List (Option UInt32))
    (table after : Table) : Prop where
  size_eq : after.slots.size = if entries.any Option.isSome then
    max table.slots.size entries.length else table.slots.size
  /-- Every function that is recorded is there. -/
  recorded (i : Nat) (index : UInt32) : entries[i]? = some (some index) →
    ∃ function, functions.get? index = some function ∧ after.function? i = some function
  /-- The other slots are what they were, and null if they were added. -/
  others (i : Nat) : i < after.slots.size → entries[i]?.join = none →
    after.slots[i]? = some (table.slots[i]?.join)

/-- There are as many slots as the longer of the two tables has, if a function is recorded, and else
only if that is the live one. -/
theorem Restore.Refilled.size_eq_max_iff {functions : IndexMap Address}
    {entries : List (Option UInt32)} {table after : Table}
    (h : Refilled functions entries table after) :
    after.slots.size = max table.slots.size entries.length ↔
      entries.any Option.isSome = true ∨ entries.length ≤ table.slots.size := by
  rw [h.size_eq]
  cases hany : entries.any Option.isSome with
  | true => simp
  | false =>
    simp only [Bool.false_eq_true, if_false, false_or]
    omega

namespace Restore

section

variable {symbol : String} {exports : AccessorExports} {store after : Store}
  {address : Address} {table : Table} {entries : List (Option UInt32)}

/-- Slots that hold the same functions, in two tables of functions one of which may be longer. -/
theorem slot_eq_of_iff {before changed : Table} {i : Nat} (hlt : i < changed.slots.size)
    (hbefore : before.holdsFunctions = true) (hchanged : changed.holdsFunctions = true)
    (h : ∀ function, changed.function? i = some function ↔ before.function? i = some function) :
    changed.slots[i]? = some (before.slots[i]?.join) := by
  have heq : changed.function? i = before.function? i := Option.ext h
  rw [Table.function?, Table.function?, if_pos hbefore, if_pos hchanged,
    Array.getElem?_eq_getElem hlt] at heq
  rw [Array.getElem?_eq_getElem hlt, ← heq]
  rfl

variable [Host]

instance (address : Address) (words : Array UInt32) :
    Within Store.SameTables (writeMemory address words) := by
  unfold writeMemory
  infer_instance

theorem refilled_of_writeTable (htable : store.tables[address]? = some table)
    (hany : entries.any Option.isSome = true)
    (hrun : store.run (writeTable symbol exports address entries) = (.ok (), after)) :
    ∃ refilled, after = { store with tables := store.tables.setIfInBounds address refilled } ∧
      Refilled exports.functions entries table refilled := by
  obtain ⟨hlt, -⟩ := Array.getElem?_eq_some_iff.1 htable
  obtain ⟨hlength, hholds, hslots, hfound⟩ := fits_of_writeTable htable hrun hany
  obtain ⟨refilled, hwrite, hsize, hwritten⟩ :=
    run_writeTable symbol htable hholds hlength hslots hfound
  have hextends : store.Extends after := Within.of_run hrun
  rw [hrun] at hwrite
  cases hwrite
  obtain ⟨_, hlast, hextended⟩ := hextends.tables htable
  rw [Array.getElem?_setIfInBounds_self_of_lt hlt] at hlast
  cases hlast
  refine ⟨refilled, rfl, by rw [if_pos hany, hsize], fun i index hi => ?_, fun i hi hhole => ?_⟩
  · obtain ⟨function, hfunction⟩ := hfound i index hi
    have hslot := hwritten i function
    rw [hi] at hslot
    exact ⟨function, hfunction, hslot.2 hfunction⟩
  · refine slot_eq_of_iff hi hholds (hextended.holdsFunctions_eq.trans hholds) fun function => ?_
    have hslot := hwritten i function
    rwa [hhole] at hslot

/-- The table of an instance, once the table of a snapshot has been restored. -/
theorem refilled_of_restoreTable (htable : store.tables[address]? = some table)
    (haddress : exports.table = some address)
    (hrun : store.run (restoreTable symbol exports entries) = (.ok (), after)) :
    ∃ refilled, after.tables = store.tables.setIfInBounds address refilled ∧
      Refilled exports.functions entries table refilled := by
  unfold restoreTable at hrun
  split at hrun
  · next hany =>
    rw [haddress] at hrun
    obtain ⟨refilled, rfl, hrefilled⟩ := refilled_of_writeTable htable hany hrun
    exact ⟨refilled, rfl, hrefilled⟩
  · next hnone =>
    cases hrun
    rw [Bool.not_eq_true] at hnone
    have hhole := Snapshot.join_getElem?_of_any_eq_false hnone
    refine ⟨table, (Array.setIfInBounds_of_getElem? htable).symm, ?_, fun i index hi => ?_,
      fun i hi _ => ?_⟩
    · rw [hnone]
      rfl
    · have hjoin := hhole i
      rw [hi] at hjoin
      cases hjoin
    · rw [Array.getElem?_eq_getElem hi]
      rfl

/-- The store before a snapshot is restored, with its memory, with its table, and at the end. -/
structure Staged (snapshot : Snapshot) (inst : Instance)
    (store withMemory filled after : Store) : Prop where
  memory : store.run (restoreMemory snapshot.symbol
    (AccessorExports.ofInstance snapshot.symbol inst) snapshot.memory) = (.ok (), withMemory)
  table : withMemory.run (restoreTable snapshot.symbol
    (AccessorExports.ofInstance snapshot.symbol inst) snapshot.table) = (.ok (), filled)
  globals : filled.run (snapshot.globals.zipIdx.forM (writeGlobal snapshot.symbol
    (AccessorExports.ofInstance snapshot.symbol inst))) = (.ok (), after)

section

variable {snapshot : Snapshot} {inst : Instance} {withMemory filled : Store}

theorem staged_of_restore (h : store.run (snapshot.restore inst) = (.ok (), after)) :
    ∃ withMemory filled, Staged snapshot inst store withMemory filled after := by
  obtain ⟨_, withMemory, hmemory, h⟩ := Store.run_bind_eq_ok h
  obtain ⟨_, filled, htable, hglobals⟩ := Store.run_bind_eq_ok h
  exact ⟨withMemory, filled, hmemory, htable, hglobals⟩

theorem Staged.sameTables (h : Staged snapshot inst store withMemory filled after) :
    store.SameTables withMemory := Within.of_run h.memory

theorem Staged.extends (h : Staged snapshot inst store withMemory filled after) :
    store.Extends filled := by
  have hmemory : store.Extends withMemory := Within.of_run h.memory
  exact hmemory.trans (Within.of_run h.table)

end

end

end Restore

/-- No function that is called for a global of the snapshot changes a table, whatever has come to the
store by then. -/
def Instance.SettersKeepTables [Host] (inst : Instance) (snapshot : Snapshot) (store : Store) :
    Prop :=
  ∀ entry ∈ snapshot.globals.zipIdx, ∀ reached : Store, store.Extends reached →
    reached.SameTables (reached.run (Restore.writeGlobal snapshot.symbol
      (AccessorExports.ofInstance snapshot.symbol inst) entry)).2

section Setters

variable [Host] {selection : Selection} {symbol : String} {bytes : Bytes} {sections : List Section}
  {original m : Declarations} {inst : Instance} {store after : Store} {snapshot : Snapshot}

theorem Instance.Exposes.sameTables_writeGlobal (h : inst.Exposes selection symbol original store)
    (entry : Option GlobalValue × Nat) : store.SameTables (store.run
      (Restore.writeGlobal symbol (AccessorExports.ofInstance symbol inst) entry)).2 := by
  rw [Restore.writeGlobal_eq]
  cases hwrite : Restore.Write.ofGlobal? entry with
  | none => rfl
  | some write =>
    rw [Option.elim_some]
    rcases write.done_or_refused h with ⟨next, hdone⟩ | ⟨e, hrefused⟩
    · rw [Restore.Write.run_of_done h hdone]
      cases hdone with
      | memory | global => rfl
      | tableSize | slot =>
        unfold Restore.Write.ofGlobal? at hwrite
        split at hwrite <;> simp at hwrite
    · rw [Restore.Write.run_of_refused h hrefused]
      rfl

/-- The setters that a module is given are of this kind, be it that they are not found under the
symbol of the snapshot. -/
theorem Prepared.settersKeepTables (h : Prepared selection symbol bytes sections original m)
    (hnames : ∀ e ∈ original.exports, Accessor.ofExportName? snapshot.symbol e.name = none)
    (hof : inst.Of m store) : inst.SettersKeepTables snapshot store := by
  intro entry _ reached hextends
  exact (h.exposes_under hnames (hof.extends hextends)).sameTables_writeGlobal entry

theorem Instance.SettersKeepTables.sameTables (h : inst.SettersKeepTables snapshot store)
    {reached : Store} (hreached : store.Extends reached) (hrun : reached.run
      (snapshot.globals.zipIdx.forM (Restore.writeGlobal snapshot.symbol
        (AccessorExports.ofInstance snapshot.symbol inst))) = (.ok (), after)) :
    reached.SameTables after := by
  unfold SettersKeepTables at h
  generalize snapshot.globals.zipIdx = entries at h hrun
  induction entries generalizing reached with
  | nil =>
    cases hrun
    rfl
  | cons entry entries ih =>
    obtain ⟨hentry, hentries⟩ := List.forall_mem_cons.1 h
    obtain ⟨⟨⟩, next, hwrite, hrest⟩ := Store.run_bind_eq_ok hrun
    have hnext : reached.Extends next := Within.of_run hwrite
    have hsame := hentry reached hreached
    rw [hwrite] at hsame
    exact StoreOrder.trans hsame (ih (hreached.trans hnext) hentries hrest)

end Setters

/-- A table that is exported under the symbol of a snapshot, once the snapshot has been restored. When
the globals are about to be restored, it is as long as the table of the snapshot, if that one was
longer, exactly if the snapshot records a function. Each recorded function is in its slot, every other
slot is what it was, or null if it was added, and no other table has changed. All this is left as it
is by the functions that restore the globals, unless they change tables themselves, which those that a
module is given do not. -/
theorem restored_table [Host] {snapshot : Snapshot} {inst : Instance} {store after : Store}
    {address : Address} {table : Table} (hdistinct : (inst.exports.map (·.1)).Nodup)
    (hexported : inst.export? (Accessor.table.exportName snapshot.symbol) = some (.table address))
    (htable : store.tables[address]? = some table)
    (hrun : store.run (snapshot.restore inst) = (.ok (), after)) :
    ∃ (withMemory filled : Store) (refilled : Table),
    Restore.Staged snapshot inst store withMemory filled after ∧
    filled.tables[address]? = some refilled ∧
    Restore.Refilled (AccessorExports.ofInstance snapshot.symbol inst).functions snapshot.table
      table refilled ∧
    (refilled.slots.size = max table.slots.size snapshot.table.length ↔
      snapshot.table.any Option.isSome = true ∨ snapshot.table.length ≤ table.slots.size) ∧
    (∀ other, other ≠ address → filled.tables[other]? = store.tables[other]?) ∧
    (inst.SettersKeepTables snapshot store → after.tables = filled.tables) ∧
    ∀ {selection symbol bytes sections original m},
      Prepared selection symbol bytes sections original m →
      (∀ e ∈ original.exports, Accessor.ofExportName? snapshot.symbol e.name = none) →
      inst.Of m store → inst.SettersKeepTables snapshot store := by
  obtain ⟨withMemory, filled, hstaged⟩ := Restore.staged_of_restore hrun
  have hsame : withMemory.tables = store.tables := hstaged.sameTables
  have haddress : (AccessorExports.ofInstance snapshot.symbol inst).table = some address := by
    have hunpadded : inst.Unpadded snapshot.symbol .table := Instance.unpadded_of_not_indexed rfl
    have hresolved := hunpadded.resolve?_eq hdistinct
    rw [hexported] at hresolved
    exact hresolved
  obtain ⟨refilled, hfilled, hrefilled⟩ :=
    Restore.refilled_of_restoreTable (hsame ▸ htable) haddress hstaged.table
  rw [hsame] at hfilled
  obtain ⟨hlt, -⟩ := Array.getElem?_eq_some_iff.1 htable
  exact ⟨withMemory, filled, refilled, hstaged,
    by rw [hfilled, Array.getElem?_setIfInBounds_self_of_lt hlt], hrefilled, hrefilled.size_eq_max_iff,
    fun other hne => by rw [hfilled, Array.getElem?_setIfInBounds_ne hne.symm],
    fun hkeep => hkeep.sameTables hstaged.extends hstaged.globals,
    fun h hnames hof => h.settersKeepTables hnames hof⟩

/-- A snapshot of a table with three slots, without a function, or with one in the first slot. -/
def threeSlots (first : Option UInt32) : Snapshot where
  table := [first, none, none]
  symbol := "_"

/-- The size of the table of the sample instance, once such a snapshot has been restored. -/
def sampleSize? (first : Option UInt32) (inst : Instance) (made : Store) : Option (Nat × Nat) :=
  match inst.export? "_table", made.run ((threeSlots first).restore inst) with
  | some (.table address), (.ok (), after) => do
    let before ← made.tables[address]?
    let table ← after.tables[address]?
    pure (before.slots.size, table.slots.size)
  | _, _ => none

theorem of_sampleSize? {first : Option UInt32} {inst : Instance} {made : Store} {old new : Nat}
    (h : sampleSize? first inst made = some (old, new)) :
    ∃ (address : Address) (before : Table) (after : Store) (table : Table),
      inst.export? "_table" = some (.table address) ∧ made.tables[address]? = some before ∧
      made.run ((threeSlots first).restore inst) = (.ok (), after) ∧
      after.tables[address]? = some table ∧ before.slots.size = old ∧ table.slots.size = new := by
  unfold sampleSize? at h
  split at h
  · next address after hexport hrun =>
    simp only [Option.bind_eq_bind, Option.bind_eq_some_iff] at h
    obtain ⟨before, hbefore, table, htable, h⟩ := h
    cases h
    exact ⟨address, before, after, table, hexport, hbefore, hrun, htable, rfl, rfl⟩
  · cases h

/-- With a function in its first slot, the snapshot makes the table of one slot as long as its own. -/
theorem restored_table_threeSlots : ∃ (declared : Declarations) (inst : Instance)
    (made filled after : Store) (address : Address) (table refilled : Table),
    Prepared .all "_" (Section.encodeModule sampleSections) sampleSections sampleDeclarations
      declared ∧
    inst.Of declared made ∧ (inst.exports.map (·.1)).Nodup ∧
    inst.export? "_table" = some (.table address) ∧ made.tables[address]? = some table ∧
    made.run ((threeSlots (some 1)).restore inst) = (.ok (), after) ∧
    filled.tables[address]? = some refilled ∧ after.tables = filled.tables ∧
    table.slots.size = 1 ∧ refilled.slots.size = 3 := by
  obtain ⟨declared, inst, made, hprepared, hof, hsample⟩ := exists_sample
    (p := fun inst made => decide ((inst.exports.map Prod.fst).Nodup ∧
      sampleSize? (some 1) inst made = some (1, 3))) (by decide +kernel)
  obtain ⟨hdistinct, hsizes⟩ := of_decide_eq_true hsample
  obtain ⟨address, table, after, last, hexport, htable, hrun, -, hsize, -⟩ := of_sampleSize? hsizes
  obtain ⟨_, filled, refilled, -, hrefilled, hcontents, -, -, hsetters, hgiven⟩ :=
    @restored_table _ (threeSlots (some 1)) inst made after address table hdistinct hexport htable
      hrun
  have hkept := hsetters (hgiven hprepared hprepared.names hof)
  refine ⟨declared, inst, made, filled, after, address, table, refilled, hprepared, hof, hdistinct,
    hexport, htable, hrun, hrefilled, hkept, hsize, ?_⟩
  rw [hcontents.size_eq, hsize]
  rfl

/-- A longer table without a function does not make the live one any longer. -/
theorem restored_table_not_grown : ¬∀ (snapshot : Snapshot) (inst : Instance) (store after : Store)
    (address : Address) (table : Table), (inst.exports.map (·.1)).Nodup →
    inst.export? (Accessor.table.exportName snapshot.symbol) = some (.table address) →
    store.tables[address]? = some table →
    store.run (snapshot.restore inst) = (.ok (), after) → ∃ grown,
    after.tables[address]? = some grown ∧
    grown.slots.size = max table.slots.size snapshot.table.length := by
  intro h
  obtain ⟨declared, inst, made, -, -, hsample⟩ := exists_sample
    (p := fun inst made => decide ((inst.exports.map Prod.fst).Nodup ∧
      sampleSize? none inst made = some (1, 1))) (by decide +kernel)
  obtain ⟨hdistinct, hsizes⟩ := of_decide_eq_true hsample
  obtain ⟨address, table, after, last, hexport, htable, hrun, hlast, hbefore, hsize⟩ :=
    of_sampleSize? hsizes
  obtain ⟨grown, hgrown, hlonger⟩ :=
    h (threeSlots none) inst made after address table hdistinct hexport htable hrun
  rw [hlast] at hgrown
  cases hgrown
  rw [hsize, hbefore] at hlonger
  exact absurd hlonger (by decide)

/-- Adds a slot to the first table, if it may become as long. -/
def addSlot : Run (List Value) := do
  let table ← Run.table 0
  if table.slots.size < TableType.maxSlots then
    Run.setTable 0 { table with slots := table.slots.push none }
    pure []
  else pure []

instance : Within Store.Extends addSlot := by
  refine Run.within_part_bind fun store table h => ?_
  split
  · next hlt =>
    have hextends : table.Extends { table with slots := table.slots.push none } :=
      ⟨rfl, by simp, fun _ => by rw [Array.size_push]; exact hlt⟩
    exact (Store.Updates.setTable h hextends).toExtends
  · exact Store.Extends.refl store

/-- A host whose functions add a slot to the first table whenever they are called. -/
@[reducible] def Host.growing : Host where
  hasPages _ _ := true
  hasSlots _ _ := true
  call _ _ := addSlot
  call_extends _ _ store := Within.out (x := addSlot) store

/-- Where such a function is exported as a setter, the table ends up longer than both were. -/
theorem outgrown_by_setter : ∃ (_ : Host) (snapshot : Snapshot) (inst : Instance)
    (store after : Store) (table grown : Table), (inst.exports.map (·.1)).Nodup ∧
    inst.export? (Accessor.table.exportName snapshot.symbol) = some (.table 0) ∧
    store.tables[0]? = some table ∧ store.run (snapshot.restore inst) = (.ok (), after) ∧
    after.tables[0]? = some grown ∧ table.slots.size = snapshot.table.length ∧
    grown.slots.size = snapshot.table.length + 1 := by
  let inst : Instance := {
    scope := ⟨[], [], [], [], []⟩
    exports := [("_table", .table 0), ("_global_setter_i32_0", .function 0),
      ("_func_1", .function 0)] }
  let store : Store := {
    functions := #[.foreign Signature.i32Setter.type]
    tables := #[⟨.func, #[none], none⟩] }
  let snapshot : Snapshot := { table := [some 1], globals := [some (.i32 0)], symbol := "_" }
  let after : Store := { store with tables := #[⟨.func, #[some 0, none], none⟩] }
  refine ⟨.growing, snapshot, inst, store, after, ⟨.func, #[none], none⟩,
    ⟨.func, #[some 0, none], none⟩, ?_⟩
  decide +kernel

end WasmSnapshot
