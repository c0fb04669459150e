import WasmSnapshot.Proofs.Snapshot.Parts

/-! Restoring an instance. A snapshot is restored if and only if it fits the instance. Capturing the
instance afterwards gives what was captured before, with the snapshot laid over it. -/

namespace WasmSnapshot

/-- Whether a snapshot fits an instance: there is a place for all that it records. -/
structure Snapshot.Fits [Host] (snapshot : Snapshot) (selection : Selection) (original : Declarations)
    (inst : Instance) (store : Store) : Prop where
  memory (words : Array UInt32) : snapshot.memory = some words → ∃ memory,
    inst.exposedMemory? selection original store = some memory ∧ Restore.HasRoom memory words
  table : snapshot.table.any Option.isSome = true → snapshot.table.length < 2 ^ 32 ∧ ∃ table,
    inst.exposedTable? selection original store = some table ∧
    table.holdsFunctions = true ∧ Restore.HasSlots table snapshot.table.length
  functions (i : Nat) (index : UInt32) : snapshot.table[i]? = some (some index) →
    ∃ address, original.OwnFunction inst.scope index address
  length_globals : snapshot.globals.length < 2 ^ 32
  globals (index : UInt32) (value : GlobalValue) : snapshot.global? index = some value →
    selection.exposed? original.imports original.globals index = some value.intType

/-- What restoring a snapshot makes of the state of an instance. -/
structure Snapshot.Restored (snapshot : Snapshot) (selection : Selection) (original : Declarations)
    (inst : Instance) (before after : Store) : Prop where
  memory {memory : Memory} : inst.exposedMemory? selection original before = some memory →
    ∃ memory', inst.exposedMemory? selection original after = some memory' ∧
      memory.Rewritten snapshot.memory memory'
  table {table : Table} : inst.exposedTable? selection original before = some table →
    ∃ table', inst.exposedTable? selection original after = some table' ∧
      (table'.slots.size = if snapshot.table.any Option.isSome then
        max table.slots.size snapshot.table.length else table.slots.size) ∧
      ∀ (i : Nat) (function : Address), table'.function? i = some function ↔
        match snapshot.table[i]?.join with
        | some index => original.OwnFunction inst.scope index function
        | none => table.function? i = some function
  globals {index : UInt32} {type : IntType} :
    selection.exposed? original.imports original.globals index = some type →
    inst.value? after index =
      match snapshot.global? index with
      | some value => some value.toValue
      | none => inst.value? before index

namespace Instance.Exposes

variable [Host] {selection : Selection} {original : Declarations} {inst : Instance}
  {store after : Store} {snapshot : Snapshot}

/-- A snapshot that fits is restored. -/
theorem run_restore (h : inst.Exposes selection snapshot.symbol original store)
    (hfits : snapshot.Fits selection original inst store) : ∃ after,
    store.run (snapshot.restore inst) = (.ok (), after) ∧
    snapshot.Restored selection original inst store after := by
  obtain ⟨first, hfirst, htables, hglobals, hmemory⟩ := h.run_restoreMemory hfits.memory
  have hextends : store.Extends first := Within.of_run hfirst
  have h' := h.extends hextends
  have htable := hfits.table
  rw [← exposedTable?_congr htables] at htable
  obtain ⟨second, hsecond, hmemories', hglobals', htable'⟩ :=
    h'.run_restoreTable htable hfits.functions
  have hextends' : first.Extends second := Within.of_run hsecond
  have hentry (index : UInt32) : Snapshot.entryAt 0 snapshot.globals index.toNat =
      snapshot.global? index := by
    have hadd := Snapshot.entryAt_add 0 snapshot.globals index.toNat
    rwa [Nat.zero_add] at hadd
  have hlength : 0 + snapshot.globals.length < 2 ^ 32 := by
    rw [Nat.zero_add]
    exact hfits.length_globals
  obtain ⟨after, hthird, htables'', hmemories'', hvalues⟩ :=
    (h'.extends hextends').run_writeGlobals hlength fun index value hvalue =>
      hfits.globals index value ((hentry index).symm.trans hvalue)
  refine ⟨after, ?_, ⟨fun {memory} hexposed => ?_, fun {table} hexposed => ?_,
    fun {index type} hexposed => ?_⟩⟩
  · rw [Snapshot.restore, Store.run_bind_of_ok hfirst, Store.run_bind_of_ok hsecond]
    exact hthird
  · rw [exposedMemory?_congr (hmemories''.trans hmemories')]
    exact hmemory memory hexposed
  · rw [exposedTable?_congr htables'']
    exact htable' table ((exposedTable?_congr htables).trans hexposed)
  · rw [hvalues index type hexposed, hentry]
    cases snapshot.global? index with
    | none => exact value?_congr (hglobals'.trans hglobals) index
    | some value => rfl

/-- A snapshot that is restored fits. -/
theorem fits_of_restore (h : inst.Exposes selection snapshot.symbol original store)
    (hrun : store.run (snapshot.restore inst) = (.ok (), after)) :
    snapshot.Fits selection original inst store := by
  obtain ⟨_, first, hfirst, hrest⟩ := Store.run_bind_eq_ok hrun
  obtain ⟨_, second, hsecond, hthird⟩ := Store.run_bind_eq_ok hrest
  have hmemory (words : Array UInt32) (hwords : snapshot.memory = some words) :=
    h.fits_of_restoreMemory hfirst hwords
  -- Memory is written first, and the table is found as it was before that.
  obtain ⟨written, hwritten, htables, -, -⟩ := h.run_restoreMemory hmemory
  rw [hfirst] at hwritten
  cases hwritten
  have hextends : store.Extends first := Within.of_run hfirst
  have h' := h.extends hextends
  have hextends' : first.Extends second := Within.of_run hsecond
  have h'' := h'.extends hextends'
  have htable (hany : snapshot.table.any Option.isSome = true) :=
    h'.fits_of_restoreTable hsecond hany
  rw [exposedTable?_congr htables] at htable
  exact {
    memory := hmemory
    table := fun hany => (htable hany).1
    functions := fun i index hi => by
      refine (htable ?_).2 i index hi
      exact Snapshot.any_isSome_iff.2 ⟨_, _, hi⟩
    length_globals := by
      cases hlength : snapshot.globals.length with
      | zero => decide
      | succ n =>
        have hlast : n < snapshot.globals.length := by omega
        have hposition := (h''.fits_of_writeGlobals hthird (List.getElem?_eq_getElem hlast)).1
        omega
    globals := fun index value hvalue => by
      have hposition := h''.fits_of_writeGlobals hthird (Option.join_eq_some_iff.1 hvalue)
      rw [Nat.zero_add, UInt32.ofNat_toNat] at hposition
      exact hposition.2 value rfl }

end Instance.Exposes

/-! ### The overlay -/

namespace Snapshot

variable {selection : Selection} {symbol : String} {original : Declarations} {inst : Instance}
  {store after : Store} {before snapshot : Snapshot}

theorem overlay_global? (before snapshot : Snapshot) (index : UInt32) :
    (before.overlay snapshot).global? index =
      if index.toNat < before.globals.length then
        (snapshot.global? index).or (before.global? index)
      else none := by
  rw [global?, overlay]
  by_cases hlt : index.toNat < before.globals.length
  · rw [if_pos hlt]
    exact join_overlayEntries _ _ hlt
  · rw [if_neg hlt, List.getElem?_eq_none (by rw [length_overlayEntries]; omega)]
    rfl

variable [Host]

/-- A table after a snapshot was restored: the slots that it records, and the other ones as before. -/
theorem Restored.table_overlay (h : inst.Exposes selection symbol original store)
    (hrestored : snapshot.Restored selection original inst store after)
    (hfits : snapshot.Fits selection original inst store)
    (hbefore : before.Describes selection symbol original inst store)
    (hexposes : selection.exposesTable original = true) : ∃ table,
    inst.exposedTable? selection original after = some table ∧
    (before.overlay snapshot).table.length = table.slots.size ∧
    ∀ (i : Nat) (index : UInt32), (before.overlay snapshot).table[i]? = some (some index) ↔
      ∃ address, table.function? i = some address ∧
        original.OwnFunction inst.scope index address := by
  obtain ⟨table, hexposed, hlength, hentries⟩ := hbefore.table hexposes
  obtain ⟨table', hexposed', hsize, hslots⟩ := hrestored.table hexposed
  refine ⟨table', hexposed', ?_, fun i index => ?_⟩
  · rw [overlay, length_overlayEntries, hsize, hlength]
  · rw [overlay, overlayEntries_eq_some]
    cases hupper : snapshot.table[i]?.join with
    | some recorded =>
      have hi := Option.join_eq_some_iff.1 hupper
      have hany : snapshot.table.any Option.isSome = true := any_isSome_iff.2 ⟨_, _, hi⟩
      obtain ⟨hlt, -⟩ := List.getElem?_eq_some_iff.1 hi
      obtain ⟨address, hown⟩ := hfits.functions i recorded hi
      simp only [hslots, hupper, hany, if_true]
      constructor
      · rintro ⟨-, heq | ⟨hnone, -⟩⟩
        · cases heq
          exact ⟨address, hown, hown⟩
        · cases hnone
      · rintro ⟨function, hrecorded, hindex⟩
        rw [h.ownFunction_injective hrecorded hindex]
        exact ⟨by omega, .inl rfl⟩
    | none =>
      have hlower : before.table[i]?.join = some index ↔ ∃ address,
          table.function? i = some address ∧ original.OwnFunction inst.scope index address :=
        Option.join_eq_some_iff.trans (hentries i index)
      simp only [hslots, hupper, ← hlower]
      constructor
      · rintro ⟨-, hnone | ⟨-, hlower⟩⟩
        · cases hnone
        · exact hlower
      · intro hlower
        obtain ⟨hlt, -⟩ := List.getElem?_eq_some_iff.1 (Option.join_eq_some_iff.1 hlower)
        refine ⟨?_, .inr ⟨trivial, hlower⟩⟩
        split <;> omega

/-- The state after a snapshot was restored is the one before with the snapshot laid over it. -/
theorem Restored.describes_overlay (h : inst.Exposes selection symbol original store)
    (hrestored : snapshot.Restored selection original inst store after)
    (hfits : snapshot.Fits selection original inst store)
    (hbefore : before.Describes selection symbol original inst store) :
    (before.overlay snapshot).Describes selection symbol original inst after where
  symbol := hbefore.symbol
  memory hexposes := by
    obtain ⟨memory, words, hexposed, hwords, hhas⟩ := hbefore.memory hexposes
    obtain ⟨memory', hexposed', hrewritten⟩ := hrestored.memory hexposed
    rw [overlay]
    cases hrecorded : snapshot.memory with
    | none =>
      rw [hrecorded] at hrewritten
      cases (show memory' = memory from hrewritten)
      exact ⟨memory, words, hexposed', hwords, hhas⟩
    | some recorded =>
      rw [hrecorded] at hrewritten
      exact ⟨memory', overlayWords words recorded, hexposed', by simp [hwords],
        Memory.Overlaid.hasWords hrewritten hhas⟩
  no_memory hexposes := by
    rw [overlay, hbefore.no_memory hexposes]
    cases snapshot.memory <;> rfl
  table hexposes := hrestored.table_overlay h hfits hbefore hexposes
  no_table hexposes := by
    have hany : snapshot.table.any Option.isSome = false := by
      rw [← Bool.not_eq_true]
      intro hany
      obtain ⟨-, table, hexposed, -⟩ := hfits.table hany
      rw [Instance.exposesTable_of_exposedTable? hexposed] at hexposes
      cases hexposes
    rw [overlay, hbefore.no_table hexposes, hany]
    rfl
  length_globals i := by
    rw [overlay, length_overlayEntries]
    exact hbefore.length_globals i
  i32Global {index} hexposed := by
    obtain ⟨bits, hvalue, hglobal⟩ := hbefore.i32Global hexposed
    have hlt := (hbefore.length_globals index.toNat).2
      ⟨index, Nat.le_refl _, by rw [hexposed]; rfl⟩
    rw [overlay_global?, if_pos hlt, hrestored.globals hexposed]
    cases hrecorded : snapshot.global? index with
    | none => exact ⟨bits, hvalue, hglobal⟩
    | some value =>
      have htype := hfits.globals index value hrecorded
      rw [hexposed] at htype
      cases value with
      | i32 value => exact ⟨value.toUInt32, rfl, rfl⟩
      | i64 high low => cases htype
  i64Global {index} hexposed := by
    obtain ⟨bits, hvalue, hglobal⟩ := hbefore.i64Global hexposed
    have hlt := (hbefore.length_globals index.toNat).2
      ⟨index, Nat.le_refl _, by rw [hexposed]; rfl⟩
    rw [overlay_global?, if_pos hlt, hrestored.globals hexposed]
    cases hrecorded : snapshot.global? index with
    | none => exact ⟨bits, hvalue, hglobal⟩
    | some value =>
      have htype := hfits.globals index value hrecorded
      rw [hexposed] at htype
      cases value with
      | i32 value => cases htype
      | i64 high low =>
        -- The halves go in as arguments of the setter, and come out of the two getters.
        exact ⟨_, rfl, (GlobalValue.global?_toValue (.i64 high low)).symm⟩
  unexposed {index} hexposed := by
    rw [overlay_global?, hbefore.unexposed hexposed]
    split
    · cases hrecorded : snapshot.global? index with
      | none => rfl
      | some value =>
        have htype := hfits.globals index value hrecorded
        rw [hexposed] at htype
        cases htype
    · rfl

end Snapshot

/-- Restoring and then capturing is laying over. Whatever snapshot is restored to an instance, in
whatever state, what is captured afterwards is what was captured before with the snapshot over it. -/
theorem capture_restore [Host] {selection : Selection} {bytes : Bytes} {sections : List Section}
    {original m : Declarations} {inst : Instance} {store after : Store} {snapshot : Snapshot}
    (h : Prepared selection snapshot.symbol bytes sections original m) (hof : inst.Of m store)
    (hrestore : store.run (snapshot.restore inst) = (.ok (), after)) : ∃ before,
    store.run (Snapshot.capture snapshot.symbol inst) = (.ok before, store) ∧
    after.run (Snapshot.capture snapshot.symbol inst) = (.ok (before.overlay snapshot), after) := by
  have hexposes := h.exposes hof
  have hfits := hexposes.fits_of_restore hrestore
  obtain ⟨_, hrun, hrestored⟩ := hexposes.run_restore hfits
  rw [hrestore] at hrun
  cases hrun
  have hextends : store.Extends after := Within.of_run hrestore
  obtain ⟨before, hbefore, hdescribes⟩ := hexposes.run_capture
  obtain ⟨captured, hcaptured, hdescribes'⟩ := (hexposes.extends hextends).run_capture
  have heq := hdescribes'.unique (hrestored.describes_overlay hexposes hfits hdescribes)
  exact ⟨before, hbefore, heq ▸ hcaptured⟩

/-- A snapshot of the sample module. It leaves a slot and the globals before the last one alone. -/
def sampleSnapshot : Snapshot where
  memory := some #[1, 2]
  table := [none, some 1]
  globals := [none, some (.i64 1 2)]
  symbol := "_"

theorem capture_restore_sample : ∃ (declared : Declarations) (inst : Instance)
    (store after : Store) (before : Snapshot),
    Prepared .all "_" (Section.encodeModule sampleSections) sampleSections sampleDeclarations
      declared ∧
    inst.Of declared store ∧ store.run (sampleSnapshot.restore inst) = (.ok (), after) ∧
    store.run (Snapshot.capture "_" inst) = (.ok before, store) ∧
    after.run (Snapshot.capture "_" inst) = (.ok (before.overlay sampleSnapshot), after) := by
  have hrestored : (sampleInstance?.any fun sample =>
      (sample.2.2.run (sampleSnapshot.restore sample.2.1)).1.isOk) = true := by decide +kernel
  obtain ⟨declared, inst, made, hprepared, hof, hok⟩ := exists_sample
    (p := fun inst made => (made.run (sampleSnapshot.restore inst)).1.isOk) hrestored
  cases hrun : made.run (sampleSnapshot.restore inst) with
  | mk result after =>
    cases result with
    | error e => rw [hrun] at hok; cases hok
    | ok =>
      obtain ⟨before, hbefore, hafter⟩ := @capture_restore _ .all _ _ _ _ _ _ _ sampleSnapshot
        hprepared hof hrun
      exact ⟨declared, inst, made, after, before, hprepared, hof, hrun, hbefore, hafter⟩

end WasmSnapshot
