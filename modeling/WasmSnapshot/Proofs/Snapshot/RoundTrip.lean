import WasmSnapshot.Proofs.Snapshot.Restore

/-! From one instance to another one of the same module. The second takes over the memory and the
globals of the first. It takes over the functions in the table, too, but the slots in which the first
has none keep what they hold. So the snapshots are equal if and only if those hold none either. -/

namespace WasmSnapshot

section

variable [Host]

/-- The memory is as large as another one, or can grow to its size. -/
def Memory.GrowsTo (memory target : Memory) : Prop :=
  memory.pages.size ≤ target.pages.size ∧ (memory.pages.size < target.pages.size →
    (memory.grow? (target.pages.size - memory.pages.size)).isSome = true)
  deriving Decidable

/-- The table is as long as another one, or can grow to its length. -/
def Table.GrowsTo (table target : Table) : Prop :=
  table.slots.size ≤ target.slots.size ∧ (table.slots.size < target.slots.size →
    (table.grow? (target.slots.size - table.slots.size) none).isSome = true)
  deriving Decidable

/-- What an instance exposes can grow to the sizes that it has in another one. -/
structure Instance.GrowsTo (selection : Selection) (original : Declarations) (inst : Instance)
    (store : Store) (target : Instance) (targetStore : Store) : Prop where
  memory : ∀ memory ∈ inst.exposedMemory? selection original store,
    ∀ other ∈ target.exposedMemory? selection original targetStore, memory.GrowsTo other
  table : ∀ table ∈ inst.exposedTable? selection original store,
    ∀ other ∈ target.exposedTable? selection original targetStore, table.GrowsTo other

end

/-- Laid over `before`, the table of the snapshot hides all of it: where `before` records a function,
the snapshot does, too, and a table without any function is as long as the other one. -/
def Snapshot.Covers (snapshot before : Snapshot) : Prop :=
  (∀ i < before.table.length, snapshot.table[i]?.join = none → before.table[i]?.join = none) ∧
  (snapshot.table.any Option.isSome = true ∨ snapshot.table.length = before.table.length)

namespace Snapshot

variable {selection : Selection} {symbol : String} {original : Declarations}
  {a b : Instance} {storeA storeB : Store} {snapshot before : Snapshot}

namespace Describes

variable (h : snapshot.Describes selection symbol original a storeA)

include h

theorem exposesMemory_of_memory {words : Array UInt32} (hwords : snapshot.memory = some words) :
    selection.exposesMemory original = true := by
  rw [← Bool.not_eq_false]
  intro hexposes
  rw [h.no_memory hexposes] at hwords
  cases hwords

theorem exposesTable_of_any (hany : snapshot.table.any Option.isSome = true) :
    selection.exposesTable original = true := by
  rw [← Bool.not_eq_false]
  intro hexposes
  rw [h.no_table hexposes] at hany
  cases hany

end Describes

variable [Host]

/-- What was captured of one instance fits another one that can grow as large. -/
theorem fits_of_describes (ha : a.Exposes selection symbol original storeA)
    (hb : b.Exposes selection symbol original storeB)
    (hdescribes : snapshot.Describes selection symbol original a storeA)
    (hgrows : b.GrowsTo selection original storeB a storeA) :
    snapshot.Fits selection original b storeB where
  memory words hwords := by
    have hexposes := hdescribes.exposesMemory_of_memory hwords
    obtain ⟨memory, words', hexposed, hwords', hhas⟩ := hdescribes.memory hexposes
    obtain ⟨_, memory', -, -, hexposed'⟩ := hb.exposedMemory hexposes
    rw [hwords] at hwords'
    cases hwords'
    refine ⟨memory', hexposed', ?_⟩
    rw [Restore.HasRoom, hhas.pagesFor_eq]
    exact (hgrows.memory memory' hexposed' memory hexposed).2
  table hany := by
    have hexposes := hdescribes.exposesTable_of_any hany
    obtain ⟨table, hexposed, hlength, hentries⟩ := hdescribes.table hexposes
    obtain ⟨_, table', -, -, hexposed'⟩ := hb.exposedTable hexposes
    obtain ⟨htype, hle⟩ := ha.typed_exposedTable hexposed
    obtain ⟨htype', -⟩ := hb.typed_exposedTable hexposed'
    have helement : table'.element = table.element := Option.some.inj (htype'.symm.trans htype)
    -- Both tables are of the declared type, and that of the first instance holds a function.
    obtain ⟨i, index, hi⟩ := any_isSome_iff.1 hany
    obtain ⟨_, hfunction, -⟩ := (hentries i index).1 hi
    have hholds : table'.holdsFunctions = true := by
      rw [Table.holdsFunctions, helement]
      exact (Table.function?_eq_some_iff.1 hfunction).1
    rw [hlength]
    exact ⟨Nat.lt_succ_of_le hle, table', hexposed', hholds,
      (hgrows.table table' hexposed' table hexposed).2⟩
  functions i index hi := by
    have hany : snapshot.table.any Option.isSome = true := any_isSome_iff.2 ⟨_, _, hi⟩
    obtain ⟨table, -, -, hentries⟩ := hdescribes.table (hdescribes.exposesTable_of_any hany)
    -- The index is that of a function of the module, and so it is in either instance.
    obtain ⟨_, -, hle, hlt, -⟩ := (hentries i index).1 hi
    exact hb.ownFunction_found hle hlt
  length_globals := by
    refine Nat.lt_of_not_le fun hle => ?_
    have hlast : 2 ^ 32 - 1 < snapshot.globals.length := by omega
    obtain ⟨index, hindex, hsome⟩ := (hdescribes.length_globals _).1 hlast
    obtain ⟨type, hexposed⟩ := Option.isSome_iff_exists.1 hsome
    have := ha.index_lt hexposed
    omega
  globals index value hvalue :=
    ha.exposed_of_recorded ((hdescribes.lists.getElem? index).symm.trans hvalue)

/-- Over what was captured of an instance that is not larger, only the table may differ. -/
theorem overlay_eq (ha : a.Exposes selection symbol original storeA)
    (hb : b.Exposes selection symbol original storeB)
    (hdescribes : snapshot.Describes selection symbol original a storeA)
    (hbefore : before.Describes selection symbol original b storeB)
    (hgrows : b.GrowsTo selection original storeB a storeA) :
    before.overlay snapshot = { snapshot with table := (before.overlay snapshot).table } := by
  have hmemory : (before.overlay snapshot).memory = snapshot.memory := by
    rw [overlay]
    cases hexposes : selection.exposesMemory original with
    | false => rw [hbefore.no_memory hexposes, hdescribes.no_memory hexposes]
    | true =>
      obtain ⟨memory, words, hexposed, hwords, hhas⟩ := hdescribes.memory hexposes
      obtain ⟨memory', old, hexposed', hold, hhas'⟩ := hbefore.memory hexposes
      have hgrow := hgrows.memory memory' hexposed' memory hexposed
      have hsize := hhas.size
      have hsize' := hhas'.size
      rw [Memory.size_eq] at hsize hsize'
      rw [hwords, hold]
      refine congrArg some (overlayWords_eq ?_ ⟨memory.pages.size, ?_⟩)
      · have := hgrow.1
        omega
      · rw [wordsPerPage]
        omega
  have hglobals : (before.overlay snapshot).globals = snapshot.globals := by
    have hsome (index : UInt32) :
        (snapshot.global? index).isSome = (before.global? index).isSome := by
      rw [global?, hdescribes.lists.getElem?, ha.isSome_recorded?, global?,
        hbefore.lists.getElem?, hb.isSome_recorded?]
    have hlt (i : Nat) : i < snapshot.globals.length ↔ i < before.globals.length := by
      rw [hdescribes.length_globals, hbefore.length_globals]
    refine overlayEntries_eq_iff.2 ⟨?_, fun i hi hnone => ?_⟩
    · have := hlt snapshot.globals.length
      have := hlt before.globals.length
      omega
    · obtain ⟨index, hle, -⟩ := (hbefore.length_globals i).1 hi
      have hindex : (UInt32.ofNat i).toNat = i :=
        UInt32.toNat_ofNat_of_lt' (Nat.lt_of_le_of_lt hle index.toNat_lt)
      have heq := hsome (UInt32.ofNat i)
      rw [global?, global?, hindex, hnone] at heq
      exact Option.not_isSome_iff_eq_none.1 (by rw [← heq]; exact Bool.false_ne_true)
  have hsymbol : (before.overlay snapshot).symbol = snapshot.symbol :=
    hbefore.symbol.trans hdescribes.symbol.symm
  rw [← hmemory, ← hglobals, ← hsymbol]

/-- The table of a snapshot hides that of an instance which is not larger if it covers it. -/
theorem table_overlay_eq_iff (hdescribes : snapshot.Describes selection symbol original a storeA)
    (hbefore : before.Describes selection symbol original b storeB)
    (hgrows : b.GrowsTo selection original storeB a storeA) :
    (before.overlay snapshot).table = snapshot.table ↔ snapshot.Covers before := by
  have hle : before.table.length ≤ snapshot.table.length := by
    cases hexposes : selection.exposesTable original with
    | false => rw [hbefore.no_table hexposes, List.length_nil]; exact Nat.zero_le _
    | true =>
      obtain ⟨table, hexposed, hlength, -⟩ := hdescribes.table hexposes
      obtain ⟨table', hexposed', hlength', -⟩ := hbefore.table hexposes
      have := (hgrows.table table' hexposed' table hexposed).1
      omega
  have hholes {length : Nat} (hlt : before.table.length ≤ length) :
      (∀ i < length, snapshot.table[i]?.join = none → before.table[i]?.join = none) ↔
      ∀ i < before.table.length, snapshot.table[i]?.join = none → before.table[i]?.join = none := by
    refine ⟨fun hnone i hi => hnone i (by omega), fun hnone i _ hupper => ?_⟩
    by_cases hi : i < before.table.length
    · exact hnone i hi hupper
    · rw [List.getElem?_eq_none (Nat.le_of_not_lt hi)]
      rfl
  rw [overlay, overlayEntries_eq_iff, Covers, and_comm]
  split
  · next hany =>
    rw [Nat.max_eq_right hle, hholes hle]
    simp [hany]
  · next hany =>
    simp [hany]

end Snapshot

/-- One instance takes over the state of another one. -/
theorem Instance.Exposes.take_over [Host] {selection : Selection} {symbol : String}
    {original : Declarations} {a b : Instance} {storeA storeB : Store}
    (ha : a.Exposes selection symbol original storeA)
    (hb : b.Exposes selection symbol original storeB)
    (hgrows : b.GrowsTo selection original storeB a storeA) :
    ∃ (snapshot before : Snapshot) (after : Store),
      storeA.run (Snapshot.capture symbol a) = (.ok snapshot, storeA) ∧
      storeB.run (Snapshot.capture symbol b) = (.ok before, storeB) ∧
      storeB.run (snapshot.restore b) = (.ok (), after) ∧
      after.run (Snapshot.capture symbol b) =
        (.ok { snapshot with table := (before.overlay snapshot).table }, after) ∧
      ((before.overlay snapshot).table = snapshot.table ↔ snapshot.Covers before) := by
  obtain ⟨snapshot, hsnapshot, hdescribes⟩ := ha.run_capture
  obtain ⟨before, hbefore, hdescribes'⟩ := hb.run_capture
  have hfits := Snapshot.fits_of_describes ha hb hdescribes hgrows
  have hsymbol := hdescribes.symbol
  subst hsymbol
  obtain ⟨after, hrestore, hrestored⟩ := hb.run_restore hfits
  have hextends : storeB.Extends after := Within.of_run hrestore
  obtain ⟨captured, hcaptured, hdescribes''⟩ := (hb.extends hextends).run_capture
  have heq := hdescribes''.unique (hrestored.describes_overlay hb hfits hdescribes')
  rw [Snapshot.overlay_eq ha hb hdescribes hdescribes' hgrows] at heq
  rw [heq] at hcaptured
  exact ⟨snapshot, before, after, hsnapshot, hbefore, hrestore, hcaptured,
    Snapshot.table_overlay_eq_iff hdescribes hdescribes' hgrows⟩

/-- The state of one instance is taken over by another one of the same module which can grow as large.
The second one then has the memory and the globals of the first, and the functions in its table. What
else it holds in its own table stays, so that it is captured as the first one was if and only if the
snapshot covers the table. -/
theorem round_trip_iff [Host] {selection : Selection} {symbol : String} {bytes : Bytes}
    {sections : List Section} {original m : Declarations} {a b : Instance} {storeA storeB : Store}
    (h : Prepared selection symbol bytes sections original m)
    (ha : a.Of m storeA) (hb : b.Of m storeB)
    (hgrows : b.GrowsTo selection original storeB a storeA) :
    ∃ (snapshot before : Snapshot) (after : Store),
      storeA.run (Snapshot.capture symbol a) = (.ok snapshot, storeA) ∧
      storeB.run (Snapshot.capture symbol b) = (.ok before, storeB) ∧
      storeB.run (snapshot.restore b) = (.ok (), after) ∧
      after.run (Snapshot.capture symbol b) =
        (.ok { snapshot with table := (before.overlay snapshot).table }, after) ∧
      (after.run (Snapshot.capture symbol b) = (.ok snapshot, after) ↔
        snapshot.Covers before) := by
  obtain ⟨snapshot, before, after, hsnapshot, hbefore, hrestore, hcaptured, hcovers⟩ :=
    (h.exposes ha).take_over (h.exposes hb) hgrows
  refine ⟨snapshot, before, after, hsnapshot, hbefore, hrestore, hcaptured, ?_⟩
  rw [hcaptured, ← hcovers]
  constructor
  · intro heq
    have hsame := congrArg Snapshot.table (Except.ok.inj (Prod.mk.inj heq).1)
    exact hsame
  · intro htable
    rw [htable]

/-- Two instances of the sample module. The slot of the first one was cleared before the second one
was made. -/
def samplePair? : Option (Module × Instance × Store × Instance × Store) := do
  let (m, a, made) ← sampleInstance?
  let storeA := made.afterAll [.setSlot 0 0 none]
  match storeA.run (Instance.ofModule m fun _ _ => none) with
  | (.ok b, storeB) => pure (m, a, storeA, b, storeB)
  | (.error _, _) => none

theorem samplePair?_grows : (samplePair?.any fun (_, a, storeA, b, storeB) => decide
    ((∀ memory ∈ b.exposedMemory? .all sampleDeclarations storeB,
      ∀ other ∈ a.exposedMemory? .all sampleDeclarations storeA, memory.GrowsTo other) ∧
    (∀ table ∈ b.exposedTable? .all sampleDeclarations storeB,
      ∀ other ∈ a.exposedTable? .all sampleDeclarations storeA, table.GrowsTo other))) = true := by
  decide +kernel

theorem samplePair_prepared : ∃ (m : Module) (declared : Declarations) (a b : Instance)
    (storeA storeB : Store), samplePair? = some (m, a, storeA, b, storeB) ∧
    SampleOf m declared ∧ a.Of declared storeA ∧
    storeA.run (Instance.ofModule m fun _ _ => none) = (.ok b, storeB) ∧
    b.Of declared storeB ∧ b.GrowsTo .all sampleDeclarations storeB a storeA := by
  obtain ⟨⟨m, a, storeA, b, storeB⟩, hpair, hgrows⟩ := (Option.any_eq_true _ _).1 samplePair?_grows
  have hmade := hpair
  simp only [samplePair?, Option.bind_eq_bind, Option.bind_eq_some_iff] at hmade
  obtain ⟨⟨m', a', made⟩, hsample, hmade⟩ := hmade
  simp only at hmade
  split at hmade
  · next b' storeB' hrun =>
    cases hmade
    obtain ⟨declared, hsampleOf, hof⟩ := prepared_sample hsample
    simp only [decide_eq_true_eq] at hgrows
    exact ⟨m, declared, _, _, _, _, hpair, hsampleOf, hof.extends (made.extends_afterAll _), hrun,
      (Instance.built_of_ofModule hrun).of hsampleOf.declares hsampleOf.consistent,
      ⟨hgrows.1, hgrows.2⟩⟩
  · cases hmade

/-- The state of the first instance of the pair is not taken over whole: the second one keeps the
function in the slot that was cleared. -/
theorem cleared_slot_kept : ∃ (m : Module) (declared : Declarations) (a b : Instance)
    (storeA storeB after : Store) (snapshot restored : Snapshot),
    Prepared .all "_" (Section.encodeModule sampleSections) sampleSections sampleDeclarations
      declared ∧
    a.Of declared storeA ∧ b.Of declared storeB ∧
    storeA.run (Instance.ofModule m fun _ _ => none) = (.ok b, storeB) ∧
    b.GrowsTo .all sampleDeclarations storeB a storeA ∧
    storeA.run (Snapshot.capture "_" a) = (.ok snapshot, storeA) ∧
    storeB.run (snapshot.restore b) = (.ok (), after) ∧
    after.run (Snapshot.capture "_" b) = (.ok restored, after) ∧
    snapshot.table = [none] ∧ restored.table = [some 1] := by
  have htables : (samplePair?.any fun (_, a, storeA, b, storeB) =>
      match storeA.run (Snapshot.capture "_" a), storeB.run (Snapshot.capture "_" b) with
      | (.ok snapshot, _), (.ok before, _) => decide
        (snapshot.table = [none] ∧ (before.overlay snapshot).table = [some 1])
      | _, _ => false) = true := by
    decide +kernel
  obtain ⟨m, declared, a, b, storeA, storeB, hpair, hsampleOf, ha, hmade, hb, hgrows⟩ :=
    samplePair_prepared
  obtain ⟨snapshot, before, after, hsnapshot, hbefore, hrestore, hcaptured, -⟩ :=
    (hsampleOf.prepared.exposes ha).take_over (hsampleOf.prepared.exposes hb) hgrows
  simp only [hpair, Option.any_some, hsnapshot, hbefore, decide_eq_true_eq] at htables
  exact ⟨m, declared, a, b, storeA, storeB, after, snapshot, _, hsampleOf.prepared, ha, hb, hmade,
    hgrows, hsnapshot, hrestore, hcaptured, htables⟩

theorem round_trip_iff_sample : ∃ (declared : Declarations) (a b : Instance)
    (storeA storeB after : Store) (snapshot before : Snapshot),
    Prepared .all "_" (Section.encodeModule sampleSections) sampleSections sampleDeclarations
      declared ∧
    a.Of declared storeA ∧ b.Of declared storeB ∧
    b.GrowsTo .all sampleDeclarations storeB a storeA ∧
    storeA.run (Snapshot.capture "_" a) = (.ok snapshot, storeA) ∧
    storeB.run (Snapshot.capture "_" b) = (.ok before, storeB) ∧
    storeB.run (snapshot.restore b) = (.ok (), after) ∧
    after.run (Snapshot.capture "_" b) =
      (.ok { snapshot with table := (before.overlay snapshot).table }, after) ∧
    (after.run (Snapshot.capture "_" b) = (.ok snapshot, after) ↔ snapshot.Covers before) := by
  obtain ⟨_, declared, a, b, storeA, storeB, -, hsampleOf, ha, -, hb, hgrows⟩ := samplePair_prepared
  obtain ⟨snapshot, before, after, htaken⟩ := round_trip_iff hsampleOf.prepared ha hb hgrows
  exact ⟨declared, a, b, storeA, storeB, after, snapshot, before, hsampleOf.prepared, ha, hb, hgrows,
    htaken⟩

end WasmSnapshot
