import WasmSnapshot.Proofs.Snapshot.Alike
import WasmSnapshot.Proofs.Snapshot.Restore
import WasmSnapshot.Snapshot.Tracked

/-! Writing back what was captured. The memory gets the words that it has, a slot the function that
it holds, and a global its own value, so that the store stays as it is. A tracked instance that has
just been captured may therefore leave the writing out. -/

namespace WasmSnapshot

variable {selection : Selection} {symbol : String} {original : Declarations} {inst : Instance}
  {store before after : Store} {snapshot : Snapshot}

namespace Restore

variable {exports : AccessorExports} {address : Address} {memory : Memory} {words : Array UInt32}
  {table : Table} {entries : List (Option UInt32)}

theorem run_writeMemory_back [Host] (hmemory : store.memories[address]? = some memory)
    (hhas : memory.HasWords words) : store.run (writeMemory address words) = (.ok (), store) := by
  have hgrow : store.run (growMemory memory (pagesFor words.size)) = (.ok memory, store) := by
    rw [hhas.pagesFor_eq, growMemory, if_neg (Nat.lt_irrefl _)]
    rfl
  have hholds : memory.holds 0 (4 * words.size) = true := by
    apply decide_eq_true
    have := hhas.size
    omega
  have hset : store.run (Access.ofRun (Run.setMemory address memory)) = (.ok (), store) := by
    refine Access.run_ofRun_of_ok ?_
    rw [Run.setMemory, Store.run_modify, Array.setIfInBounds_of_getElem? hmemory]
  rw [writeMemory, Store.run_bind_of_ok (Access.run_ofRun_of_ok (Run.run_memory hmemory)),
    Store.run_bind_of_ok hgrow, if_pos hholds, hhas.overlay_eq]
  exact hset

theorem run_writeSlot_back {entry : Option UInt32 × Nat}
    (htable : store.tables[address]? = some table)
    (hentry : ∀ index, entry.1 = some index → ∃ function,
      exports.functions.get? index = some function ∧
      table.function? entry.2 = some function) :
    store.run (writeSlot symbol exports address entry) = (.ok (), store) := by
  obtain ⟨recorded, slot⟩ := entry
  cases recorded with
  | none => rfl
  | some index =>
    obtain ⟨function, hfunction, hhas⟩ := hentry index rfl
    obtain ⟨hholds, hslot⟩ := Table.function?_eq_some_iff.1 hhas
    rw [run_writeSlot_some symbol htable hholds hfunction (Table.lt_of_function? hhas),
      Table.set_of_getElem? hslot, Array.setIfInBounds_of_getElem? htable]

theorem run_writeTable_back [Host] (htable : store.tables[address]? = some table)
    (hsize : table.slots.size ≤ TableType.maxSlots) (hlength : entries.length = table.slots.size)
    (hentries : ∀ (slot : Nat) (index : UInt32), entries[slot]? = some (some index) → ∃ function,
      exports.functions.get? index = some function ∧
      table.function? slot = some function) :
    store.run (writeTable symbol exports address entries) = (.ok (), store) := by
  have hfits : ¬ UInt32.size ≤ entries.length := by
    rw [hlength]
    exact Nat.not_le_of_lt (Nat.lt_succ_of_le hsize)
  have hgrow : store.run (growTable address entries.length) = (.ok (), store) := by
    rw [growTable, Store.run_bind_of_ok (Access.run_ofRun_of_ok (Run.run_table htable)), hlength,
      if_neg (Nat.lt_irrefl _)]
    rfl
  rw [writeTable, if_neg hfits, Store.run_bind_of_ok hgrow]
  refine Store.run_forM_of_unchanged fun entry hmem => ?_
  refine run_writeSlot_back htable fun index hindex => ?_
  have hslot := List.mk_mem_zipIdx_iff_getElem?.1 hmem
  exact hentries entry.2 index (hindex ▸ hslot)

end Restore

namespace Instance.Exposes

variable [Host] (h : inst.Exposes selection symbol original store)
  (hdescribes : snapshot.Describes selection symbol original inst store)

include h

include hdescribes

theorem run_restoreMemory_back : store.run (Restore.restoreMemory symbol
    (AccessorExports.ofInstance symbol inst) snapshot.memory) = (.ok (), store) := by
  cases hexposes : selection.exposesMemory original with
  | false =>
    rw [hdescribes.no_memory hexposes]
    rfl
  | true =>
    obtain ⟨memory, words, hexposed, hwords, hhas⟩ := hdescribes.memory hexposes
    obtain ⟨address, haddress, hmemory⟩ := h.found_of_exposedMemory? hexposed
    rw [hwords, Restore.restoreMemory, haddress]
    exact Restore.run_writeMemory_back hmemory hhas

theorem run_restoreTable_back : store.run (Restore.restoreTable symbol
    (AccessorExports.ofInstance symbol inst) snapshot.table) = (.ok (), store) := by
  cases hexposes : selection.exposesTable original with
  | false =>
    rw [hdescribes.no_table hexposes]
    rfl
  | true =>
    obtain ⟨table, hexposed, hlength, hentries⟩ := hdescribes.table hexposes
    obtain ⟨address, haddress, htable⟩ := h.found_of_exposedTable? hexposed
    have hwrite : store.run (Restore.writeTable symbol (AccessorExports.ofInstance symbol inst)
        address snapshot.table) = (.ok (), store) := by
      refine Restore.run_writeTable_back htable (h.typed_exposedTable hexposed).2 hlength
        fun slot index hslot => ?_
      obtain ⟨function, hholds, hown⟩ := (hentries slot index).1 hslot
      exact ⟨function, h.get?_functions_iff.2 hown, hholds⟩
    rw [Restore.restoreTable]
    split
    · rw [haddress]
      exact hwrite
    · rfl

theorem run_writeGlobals_back : store.run (snapshot.globals.zipIdx.forM
    (Restore.writeGlobal symbol (AccessorExports.ofInstance symbol inst))) = (.ok (), store) := by
  refine Store.run_forM_of_unchanged fun (recorded, position) hmem => ?_
  have hget := List.mk_mem_zipIdx_iff_getElem?.1 hmem
  obtain ⟨hlt, -⟩ := List.getElem?_eq_some_iff.1 hget
  obtain ⟨last, hle, hsome⟩ := (hdescribes.length_globals position).1 hlt
  obtain ⟨type, hexposed⟩ := Option.isSome_iff_exists.1 hsome
  have hposition : position + 1 < UInt32.size :=
    Nat.lt_of_le_of_lt (by omega) (h.index_lt hexposed)
  cases recorded with
  | none =>
    rw [Restore.writeGlobal, if_neg (Nat.not_le_of_lt hposition)]
    rfl
  | some value =>
    obtain ⟨index, rfl⟩ : ∃ index : UInt32, index.toNat = position :=
      ⟨UInt32.ofNat position, UInt32.toNat_ofNat_of_lt' (Nat.lt_of_succ_lt hposition)⟩
    have hrecorded : inst.recorded? selection original store index = some value := by
      rw [← hdescribes.lists.getElem?, hget]
      rfl
    obtain ⟨address, cell, hasType, haddress, hcell, hrun⟩ :=
      h.run_writeGlobal_set (h.exposed_of_recorded hrecorded)
    rw [hrun, GlobalCell.setIfInBounds_self hcell]
    rw [recorded?, h.exposed_of_recorded hrecorded, value?_eq_some haddress hcell] at hrecorded
    exact (Value.toValue_of_global? hrecorded).symm

/-- Restoring a snapshot of the present state changes nothing. -/
theorem run_restore_back : store.run (snapshot.restore inst) = (.ok (), store) := by
  have hsymbol := hdescribes.symbol
  subst hsymbol
  rw [Snapshot.restore, Store.run_bind_of_ok (h.run_restoreMemory_back hdescribes),
    Store.run_bind_of_ok (h.run_restoreTable_back hdescribes)]
  exact h.run_writeGlobals_back hdescribes

end Instance.Exposes

/-! ### Tracked instances -/

/-- What an instance consists of is the same in both stores: its memories, tables and globals,
imported ones included. -/
structure Instance.Untouched (inst : Instance) (before after : Store) : Prop where
  memories : ∀ address ∈ inst.scope.memories, after.memories[address]? = before.memories[address]?
  tables : ∀ address ∈ inst.scope.tables, after.tables[address]? = before.tables[address]?
  globals : ∀ address ∈ inst.scope.globals, after.globals[address]? = before.globals[address]?

namespace Instance.Untouched

variable (h : inst.Untouched before after)

include h

theorem exposedMemory?_eq (selection : Selection) (original : Declarations) :
    inst.exposedMemory? selection original after =
      inst.exposedMemory? selection original before := by
  refine Option.bind_congr fun address haddress => h.memories address ?_
  rw [Selection.memory?] at haddress
  split at haddress
  · exact List.mem_of_getElem? haddress
  · cases haddress

theorem exposedTable?_eq (selection : Selection) (original : Declarations) :
    inst.exposedTable? selection original after =
      inst.exposedTable? selection original before := by
  refine Option.bind_congr fun address haddress => h.tables address ?_
  rw [Selection.table?] at haddress
  split at haddress
  · exact List.mem_of_getElem? haddress
  · cases haddress

theorem value?_eq (index : UInt32) : inst.value? after index = inst.value? before index :=
  Option.bind_congr fun address haddress => by
    rw [h.globals address (List.mem_of_getElem? haddress)]

/-- An instance that nothing touches looks the same. -/
theorem alike (selection : Selection) (original : Declarations) :
    inst.Alike selection original before after where
  pages := by rw [h.exposedMemory?_eq]
  slots_size := by rw [h.exposedTable?_eq]
  slots slot index := by rw [Instance.Holds, Instance.Holds, h.exposedTable?_eq]
  globals {index} _ := h.value?_eq index

/-- What describes the state of an instance does so as long as nothing touches it. -/
theorem describes (hdescribes : snapshot.Describes selection symbol original inst before) :
    snapshot.Describes selection symbol original inst after :=
  hdescribes.of_alike (h.alike selection original)

end Instance.Untouched

namespace TrackedInstance

variable [Host] {tracked : TrackedInstance}

theorem run_hibernate_of_ok
    (h : store.run (Snapshot.capture tracked.symbol tracked.inst) = (.ok snapshot, after)) :
    tracked.hibernate.run store = (({ tracked with state := .captured }, .ok snapshot), after) := by
  have hcapture : (Snapshot.capture tracked.symbol tracked.inst).run.run store =
    (.ok snapshot, after) := h
  rw [hibernate, StateT.run_bind, hcapture]
  rfl

theorem run_hibernate_of_error {e : AccessError}
    (h : store.run (Snapshot.capture tracked.symbol tracked.inst) = (.error e, after)) :
    tracked.hibernate.run store = ((tracked, .error e), after) := by
  have hcapture : (Snapshot.capture tracked.symbol tracked.inst).run.run store =
    (.error e, after) := h
  rw [hibernate, StateT.run_bind, hcapture]
  rfl

theorem run_resume_captured (store : Store) (snapshot : Snapshot)
    (hstate : tracked.state = .captured) :
    (tracked.resume snapshot).run store = (({ tracked with state := .normal }, .ok ()), store) := by
  rw [resume, hstate]
  rfl

theorem run_resume_normal (hstate : tracked.state = .normal) {outcome : Except AccessError Unit}
    (h : store.run (snapshot.restore tracked.inst) = (outcome, after)) :
    (tracked.resume snapshot).run store = ((tracked, outcome), after) := by
  have hrestore : (snapshot.restore tracked.inst).run.run store = (outcome, after) := h
  rw [resume, hstate, StateT.run_bind, hrestore]
  rfl

end TrackedInstance

/-- Leaving out the write back is sound. What is captured of an instance, in whatever state, can be
restored to it at once, and that changes nothing at all. So as long as nothing touches the instance,
it makes no difference whether it is known that it has just been captured: resuming it ends in the
same state with the same outcome, and it is captured as before. -/
theorem resume_of_hibernate [Host] {selection : Selection} {bytes : Bytes} {sections : List Section}
    {original m : Declarations} {tracked : TrackedInstance} {store : Store}
    (h : Prepared selection tracked.symbol bytes sections original m)
    (hof : tracked.inst.Of m store) : ∃ snapshot,
    tracked.hibernate.run store = (({ tracked with state := .captured }, .ok snapshot), store) ∧
    store.run (snapshot.restore tracked.inst) = (.ok (), store) ∧
    ∀ after, store.Extends after → tracked.inst.Untouched store after →
      (TrackedInstance.resume { tracked with state := .captured } snapshot).run after =
        (({ tracked with state := .normal }, .ok ()), after) ∧
      (TrackedInstance.resume { tracked with state := .normal } snapshot).run after =
        (({ tracked with state := .normal }, .ok ()), after) ∧
      (TrackedInstance.hibernate { tracked with state := .normal }).run after =
        (({ tracked with state := .captured }, .ok snapshot), after) := by
  have hexposes := h.exposes hof
  obtain ⟨snapshot, hcapture, hdescribes⟩ := hexposes.run_capture
  refine ⟨snapshot, TrackedInstance.run_hibernate_of_ok hcapture,
    hexposes.run_restore_back hdescribes, fun after hextends huntouched => ?_⟩
  have hexposes' := hexposes.extends hextends
  have hdescribes' := huntouched.describes hdescribes
  obtain ⟨captured, hcapture', hcaptured⟩ := hexposes'.run_capture
  cases hcaptured.unique hdescribes'
  exact ⟨TrackedInstance.run_resume_captured _ snapshot rfl,
    TrackedInstance.run_resume_normal rfl (hexposes'.run_restore_back hdescribes'),
    TrackedInstance.run_hibernate_of_ok hcapture'⟩

/-- The host grows the memory of the sample instance and writes to it, and puts a function of its
own into the table. Once the instance is captured, it makes another function. -/
theorem resume_of_hibernate_sample : ∃ (declared : Declarations) (tracked : TrackedInstance)
    (store after : Store) (snapshot : Snapshot),
    Prepared .all tracked.symbol (Section.encodeModule sampleSections) sampleSections
      sampleDeclarations declared ∧
    tracked.inst.Of declared store ∧ store.Extends after ∧
    tracked.inst.Untouched store after ∧
    tracked.hibernate.run store = (({ tracked with state := .captured }, .ok snapshot), store) ∧
    store.run (snapshot.restore tracked.inst) = (.ok (), store) ∧
    (TrackedInstance.resume { tracked with state := .captured } snapshot).run after =
      (({ tracked with state := .normal }, .ok ()), after) ∧
    (TrackedInstance.resume { tracked with state := .normal } snapshot).run after =
      (({ tracked with state := .normal }, .ok ()), after) ∧
    (TrackedInstance.hibernate { tracked with state := .normal }).run after =
      (({ tracked with state := .captured }, .ok snapshot), after) := by
  have hsome : sampleInstance?.isSome = true := by decide +kernel
  obtain ⟨⟨m, inst, made⟩, hsample⟩ := Option.isSome_iff_exists.1 hsome
  obtain ⟨declared, hsampleOf, hof⟩ := prepared_sample hsample
  obtain ⟨store, hstore⟩ : ∃ store, made.afterAll [.growMemory 0 1,
      .writeMemory 0 65536 [1, 2, 3], .addFunction (.constant ⟨[], []⟩ []),
      .setSlot 0 0 (some made.functions.size)] = store := ⟨_, rfl⟩
  let tracked := TrackedInstance.ofInstance inst "_"
  have hreached : tracked.inst.Of declared store := hof.extends (hstore ▸ made.extends_afterAll _)
  have hextends : store.Extends (store.afterAll [.addFunction (.constant ⟨[], []⟩ [])]) :=
    store.extends_afterAll _
  have huntouched : tracked.inst.Untouched store
      (store.afterAll [.addFunction (.constant ⟨[], []⟩ [])]) :=
    ⟨fun _ _ => rfl, fun _ _ => rfl, fun _ _ => rfl⟩
  obtain ⟨snapshot, hhibernate, hrestore, hresume⟩ :=
    @resume_of_hibernate _ _ _ _ _ _ tracked _ hsampleOf.prepared hreached
  exact ⟨declared, tracked, store, _, snapshot, hsampleOf.prepared, hreached, hextends,
    huntouched, hhibernate, hrestore, hresume _ hextends huntouched⟩

end WasmSnapshot
