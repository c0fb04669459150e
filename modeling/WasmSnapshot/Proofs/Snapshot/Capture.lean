import WasmSnapshot.Proofs.Host.Events
import WasmSnapshot.Proofs.Instrument.Layout
import WasmSnapshot.Proofs.Snapshot.Describes

/-! Capturing an instance. The getters are called one after another, and what has been read of the
globals so far is told by the accessors that have been called, whatever their order. Once all have
been called, the snapshot describes the instance, and the store is as it was. -/

namespace WasmSnapshot

namespace Capture

variable [Host] {values : UInt32 → Option GlobalValue} {store : Store} {readings : Readings}
  {called : List Accessor}

theorem run_callGetter {address : Address} {bits : UInt32}
    (h : store.run (Run.callTyped Signature.getter.type address []) = (.ok [.i32 bits], store)) :
    store.run (callGetter address) = (.ok bits.toInt32, store) := by
  rw [callGetter, Store.run_bind_of_ok (Access.run_ofRun_of_ok h)]
  rfl

/-- The halves of a global that have been read once the given accessors have been called. -/
def halvesAfter (values : UInt32 → Option GlobalValue) (called : List Accessor) (index : UInt32) :
    Option Halves :=
  match values index with
  | some (.i64 high low) =>
    if .i64GetterHigh index ∈ called ∨ .i64GetterLow index ∈ called then
      some {
        high := if .i64GetterHigh index ∈ called then some high else none
        low := if .i64GetterLow index ∈ called then some low else none }
    else none
  | _ => none

/-- What has been read once the given accessors have been called. -/
structure Readings.After (readings : Readings) (values : UInt32 → Option GlobalValue)
    (called : List Accessor) : Prop where
  globals : Snapshot.Lists readings.globals fun index =>
    if .i32Getter index ∈ called then values index else none
  halves (index : UInt32) : readings.halves.get? index = halvesAfter values called index

/-- The getter at an address returns what it is to read of the values. -/
def Serves (values : UInt32 → Option GlobalValue) (store : Store) (address : Address) :
    Accessor → Prop
  | .i32Getter index => ∃ value, values index = some (.i32 value) ∧
    store.run (callGetter address) = (.ok value, store)
  | .i64GetterHigh index => ∃ high low, values index = some (.i64 high low) ∧
    store.run (callGetter address) = (.ok high, store)
  | .i64GetterLow index => ∃ high low, values index = some (.i64 high low) ∧
    store.run (callGetter address) = (.ok low, store)
  | _ => True

omit [Host] in
theorem after_nil : ({} : Readings).After values [] where
  globals := Snapshot.Lists.nil.congr fun index => by simp
  halves index := by
    have hnone : halvesAfter values [] index = none := by
      unfold halvesAfter
      split <;> simp
    rw [hnone]
    rfl

/-- One call of an accessor. -/
theorem run_readAccessor {accessor : Accessor} {address : Address}
    (hserves : Serves values store address accessor) (h : readings.After values called) :
    ∃ next, store.run (readAccessor readings (accessor, address)) = (.ok next, store) ∧
      next.After values (called ++ [accessor]) := by
  cases accessor with
  | i32Getter index =>
    obtain ⟨value, hvalue, hcall⟩ := hserves
    refine ⟨_, Store.run_bind_of_ok hcall, ⟨?_, ?_⟩⟩
    · refine (h.globals.setAt index (.i32 value)).congr fun other => ?_
      by_cases heq : other = index
      · simp [heq, hvalue]
      · simp [heq]
    · intro other
      refine (h.halves other).trans ?_
      simp [halvesAfter]
  | i64GetterHigh index =>
    obtain ⟨high, low, hvalue, hcall⟩ := hserves
    refine ⟨_, Store.run_bind_of_ok hcall, ⟨h.globals.congr fun other => by simp, ?_⟩⟩
    intro other
    simp only [Readings.addHalf, IndexMap.get?_insert, h.halves]
    by_cases heq : other = index
    · subst heq
      -- The other half may have been read before, or not yet.
      by_cases hhigh : Accessor.i64GetterHigh other ∈ called <;>
        by_cases hlow : Accessor.i64GetterLow other ∈ called <;>
        simp [halvesAfter, hvalue, hhigh, hlow]
    · simp [halvesAfter, heq]
  | i64GetterLow index =>
    obtain ⟨high, low, hvalue, hcall⟩ := hserves
    refine ⟨_, Store.run_bind_of_ok hcall, ⟨h.globals.congr fun other => by simp, ?_⟩⟩
    intro other
    simp only [Readings.addHalf, IndexMap.get?_insert, h.halves]
    by_cases heq : other = index
    · subst heq
      by_cases hhigh : Accessor.i64GetterHigh other ∈ called <;>
        by_cases hlow : Accessor.i64GetterLow other ∈ called <;>
        simp [halvesAfter, hvalue, hhigh, hlow]
    · simp [halvesAfter, heq]
  | memory | table | function index | i32Setter index | i64Setter index =>
    exact ⟨readings, rfl, h.globals.congr fun other => by simp, fun other =>
      (h.halves other).trans (by simp [halvesAfter])⟩

/-- The calls of all accessors, in the order of the exports. -/
theorem run_readAccessors (entries : List (Accessor × Address))
    (hserves : ∀ entry ∈ entries, Serves values store entry.2 entry.1)
    (h : readings.After values called) :
    ∃ next, store.run (entries.foldlM readAccessor readings) = (.ok next, store) ∧
      next.After values (called ++ entries.map (·.1)) := by
  -- The invariant speaks of the accessors that have been called, of which each step adds one.
  induction entries generalizing readings called with
  | nil => exact ⟨readings, rfl, by rwa [List.map_nil, List.append_nil]⟩
  | cons entry entries ih =>
    obtain ⟨next, hnext, hafter⟩ := run_readAccessor (hserves entry List.mem_cons_self) h
    obtain ⟨last, hlast, hafter⟩ :=
      ih (fun entry hmem => hserves entry (List.mem_cons_of_mem _ hmem)) hafter
    refine ⟨last, ?_, by rwa [List.map_cons, List.append_cons]⟩
    rw [List.foldlM_cons, Store.run_bind_of_ok hnext, hlast]

omit [Host] in
/-- The halves of all globals are joined, if no half is missing. -/
theorem joinHalves_eq_ok (symbol : String) {entries : List (UInt32 × Halves)}
    {globals : List (Option GlobalValue)} {f : UInt32 → Option GlobalValue}
    (hhalves : ∀ index halves, (index, halves) ∈ entries → ∃ high low,
      values index = some (.i64 high low) ∧ halves = ⟨some high, some low⟩)
    (h : Snapshot.Lists globals f) :
    ∃ joined, entries.foldlM (joinHalves symbol) globals = .ok joined ∧
      Snapshot.Lists joined fun index =>
        if index ∈ entries.map (·.1) then values index else f index := by
  induction entries generalizing globals f with
  | nil => exact ⟨globals, rfl, h.congr fun index => by simp⟩
  | cons entry entries ih =>
    obtain ⟨index, halves⟩ := entry
    obtain ⟨high, low, hvalue, rfl⟩ := hhalves index halves List.mem_cons_self
    obtain ⟨joined, hjoined, hlists⟩ :=
      ih (fun index halves hmem => hhalves index halves (List.mem_cons_of_mem _ hmem))
        (h.setAt index (.i64 high low))
    refine ⟨joined, hjoined, hlists.congr fun other => ?_⟩
    simp only [List.map_cons, List.mem_cons]
    by_cases heq : other = index
    · simp [heq, hvalue]
    · simp only [heq, false_or, if_false]

end Capture

namespace Instance.Exposes

variable {selection : Selection} {symbol : String} {original : Declarations} {inst : Instance}
  {store : Store} (h : inst.Exposes selection symbol original store)

include h

/-- Whatever getter is found under its name returns what it is to read. -/
theorem serves [Host] {accessor : Accessor} {address : Address}
    (hmem : (accessor, address) ∈ (AccessorExports.ofInstance symbol inst).globals) :
    Capture.Serves (inst.recorded? selection original store) store address accessor := by
  cases accessor with
  | i32Getter index =>
    obtain ⟨hexposed, hcode⟩ := h.found (IntType.i32Getter_mem index) hmem
    obtain ⟨globalAddress, cell, bits, haddress, hcell, -, hvalue, hrecorded⟩ := h.i32Global hexposed
    exact ⟨_, hrecorded, Capture.run_callGetter (run_i32Getter hcode haddress hcell hvalue)⟩
  | i64GetterHigh index =>
    obtain ⟨hexposed, hcode⟩ := h.found (IntType.i64GetterHigh_mem index) hmem
    obtain ⟨globalAddress, cell, bits, haddress, hcell, -, hvalue, hrecorded⟩ := h.i64Global hexposed
    exact ⟨_, _, hrecorded, Capture.run_callGetter (run_i64GetterHigh hcode haddress hcell hvalue)⟩
  | i64GetterLow index =>
    obtain ⟨hexposed, hcode⟩ := h.found (IntType.i64GetterLow_mem index) hmem
    obtain ⟨globalAddress, cell, bits, haddress, hcell, -, hvalue, hrecorded⟩ := h.i64Global hexposed
    exact ⟨_, _, hrecorded, Capture.run_callGetter (run_i64GetterLow hcode haddress hcell hvalue)⟩
  | memory | table | function index | i32Setter index | i64Setter index => trivial

/-- The name of an accessor function is among those of the accessors exactly if its global is
exposed. -/
theorem mem_accessors_iff {function : AccessorFunction} {type : IntType} {index : UInt32}
    (hfunction : function ∈ type.accessorFunctions index) :
    function.accessor ∈ (AccessorExports.ofInstance symbol inst).globals.map (·.1) ↔
      selection.exposed? original.imports original.globals index = some type := by
  constructor
  · intro hmem
    obtain ⟨entry, hentry, heq⟩ := List.mem_map.1 hmem
    obtain ⟨accessor, address⟩ := entry
    subst heq
    exact (h.found hfunction hentry).1
  · intro hexposed
    obtain ⟨address, hmem⟩ := h.complete hexposed hfunction
    exact List.mem_map.2 ⟨_, hmem, rfl⟩

/-- Once all accessors have been called, the halves of the exposed globals of type `i64` are there,
and no others. -/
theorem halvesAfter_all (index : UInt32) :
    Capture.halvesAfter (inst.recorded? selection original store)
      ((AccessorExports.ofInstance symbol inst).globals.map (·.1)) index =
    match inst.recorded? selection original store index with
    | some (.i64 high low) => some ⟨some high, some low⟩
    | _ => none := by
  have hhigh := h.mem_accessors_iff (IntType.i64GetterHigh_mem index)
  have hlow := h.mem_accessors_iff (IntType.i64GetterLow_mem index)
  rw [Capture.halvesAfter]
  split
  · next high low hrecorded =>
    have hexposed := h.exposed_of_recorded hrecorded
    simp only [hhigh.2 hexposed, hlow.2 hexposed, true_or, if_true]
  · rfl

/-- The globals of the snapshot, as far as getters and halves go. -/
theorem join_readings {readings : Capture.Readings}
    (hafter : readings.After (inst.recorded? selection original store)
      ((AccessorExports.ofInstance symbol inst).globals.map (·.1))) :
    ∃ globals, readings.join symbol = .ok globals ∧
      Snapshot.Lists globals (inst.recorded? selection original store) := by
  have hhalves (index : UInt32) (halves : Halves) : (index, halves) ∈ readings.halves.entries ↔
      ∃ high low, inst.recorded? selection original store index = some (.i64 high low) ∧
        halves = ⟨some high, some low⟩ := by
    rw [← IndexMap.get?_eq_some_iff, hafter.halves, h.halvesAfter_all]
    split
    · next high low hrecorded =>
      rw [hrecorded]
      constructor
      · intro heq
        exact ⟨high, low, rfl, (Option.some.inj heq).symm⟩
      · rintro ⟨high', low', heq, rfl⟩
        cases heq
        rfl
    · next hother =>
      constructor
      · rintro ⟨⟩
      · rintro ⟨high, low, hrecorded, -⟩
        exact absurd hrecorded (hother high low)
  obtain ⟨globals, hjoined, hlists⟩ := Capture.joinHalves_eq_ok symbol
    (fun index halves hmem => (hhalves index halves).1 hmem) hafter.globals
  refine ⟨globals, hjoined, hlists.congr fun index => ?_⟩
  have hgetter := h.mem_accessors_iff (IntType.i32Getter_mem index)
  cases hrecorded : inst.recorded? selection original store index with
  | none => simp
  | some value =>
    have hexposed := h.exposed_of_recorded hrecorded
    cases value with
    | i32 value => rw [if_pos (hgetter.2 hexposed), ite_self]
    | i64 high low =>
      rw [if_pos]
      exact List.mem_map.2 ⟨_, (hhalves index _).2 ⟨high, low, hrecorded, rfl⟩, rfl⟩

/-- A function has the index of the function of the module that it is. -/
theorem indexOf?_eq_some_iff {address : Address} {index : UInt32} :
    (AccessorExports.ofInstance symbol inst).indexOf? address = some index ↔
      original.OwnFunction inst.scope index address := by
  have hmem (entry : UInt32 × Address) :
      entry ∈ (AccessorExports.ofInstance symbol inst).functions.entries.filter (·.2 = address) ↔
        entry.2 = address ∧ original.OwnFunction inst.scope entry.1 address := by
    rw [List.mem_filter, decide_eq_true_iff, and_comm]
    refine and_congr_right fun heq => ?_
    rw [← heq]
    exact h.mem_functions
  rw [AccessorExports.indexOf?, Option.map_eq_some_iff]
  constructor
  · rintro ⟨entry, hlast, rfl⟩
    exact ((hmem entry).1 (List.mem_of_getLast? hlast)).2
  · intro hown
    cases hlast : ((AccessorExports.ofInstance symbol inst).functions.entries.filter
        (·.2 = address)).getLast? with
    | none =>
      have hentry := (hmem (index, address)).2 ⟨rfl, hown⟩
      rw [List.getLast?_eq_none_iff.1 hlast] at hentry
      cases hentry
    | some entry =>
      have hentry := ((hmem entry).1 (List.mem_of_getLast? hlast)).2
      exact ⟨entry, rfl, h.ownFunction_injective hentry hown⟩

theorem run_readMemory : ∃ memory,
    store.run (Capture.readMemory (AccessorExports.ofInstance symbol inst)) = (.ok memory, store) ∧
    (selection.exposesMemory original = true → ∃ exposed words,
      inst.exposedMemory? selection original store = some exposed ∧
      memory = some words ∧ exposed.HasWords words) ∧
    (selection.exposesMemory original = false → memory = none) := by
  rw [Capture.readMemory, h.memory]
  cases hexposes : selection.exposesMemory original with
  | false =>
    rw [Selection.memory?, hexposes]
    exact ⟨none, rfl, by rintro ⟨⟩, fun _ => rfl⟩
  | true =>
    obtain ⟨address, memory, haddress, hmemory, hexposed⟩ := h.exposedMemory hexposes
    rw [haddress]
    refine ⟨some memory.words, ?_, fun _ => ⟨memory, _, hexposed, rfl, memory.hasWords_words⟩,
      by rintro ⟨⟩⟩
    simp only
    rw [Store.run_bind_of_ok (Access.run_ofRun_of_ok (Run.run_memory hmemory))]
    rfl

theorem run_readTable : ∃ entries,
    store.run (Capture.readTable (AccessorExports.ofInstance symbol inst)) = (.ok entries, store) ∧
    (selection.exposesTable original = true → ∃ table,
      inst.exposedTable? selection original store = some table ∧
      entries.length = table.slots.size ∧
      ∀ (i : Nat) (index : UInt32), entries[i]? = some (some index) ↔ ∃ address,
        table.function? i = some address ∧ original.OwnFunction inst.scope index address) ∧
    (selection.exposesTable original = false → entries = []) := by
  rw [Capture.readTable, h.table]
  cases hexposes : selection.exposesTable original with
  | false =>
    rw [Selection.table?, hexposes]
    exact ⟨[], rfl, by rintro ⟨⟩, fun _ => rfl⟩
  | true =>
    obtain ⟨address, table, haddress, htable, hexposed⟩ := h.exposedTable hexposes
    rw [haddress]
    refine ⟨table.functions.map fun slot =>
      slot.bind (AccessorExports.ofInstance symbol inst).indexOf?, ?_,
      fun _ => ⟨table, hexposed, by simp, fun i index => ?_⟩, by rintro ⟨⟩⟩
    · simp only
      rw [Store.run_bind_of_ok (Access.run_ofRun_of_ok (Run.run_table htable))]
      rfl
    · rw [List.getElem?_map, Option.map_eq_some_iff]
      constructor
      · rintro ⟨slot, hslot, hindex⟩
        obtain ⟨function, rfl, hindex⟩ := Option.bind_eq_some_iff.1 hindex
        exact ⟨function, (Table.getElem?_functions.1 hslot).2, h.indexOf?_eq_some_iff.1 hindex⟩
      · rintro ⟨function, hslot, hown⟩
        exact ⟨some function, Table.getElem?_functions.2 ⟨Table.lt_of_function? hslot, hslot⟩,
          h.indexOf?_eq_some_iff.2 hown⟩

/-- Capturing an instance that exposes its state describes that state. -/
theorem run_capture [Host] : ∃ snapshot,
    store.run (Snapshot.capture symbol inst) = (.ok snapshot, store) ∧
    snapshot.Describes selection symbol original inst store := by
  obtain ⟨memory, hmemory, hexposed, hnone⟩ := h.run_readMemory
  obtain ⟨table, htable, hentries, hempty⟩ := h.run_readTable
  obtain ⟨readings, hreadings, hafter⟩ := Capture.run_readAccessors
    (AccessorExports.ofInstance symbol inst).globals (fun entry hmem => h.serves hmem)
    Capture.after_nil
  rw [List.nil_append] at hafter
  obtain ⟨globals, hjoined, hlists⟩ := h.join_readings hafter
  refine ⟨{ memory, table, globals, symbol }, ?_, {
    symbol := rfl
    memory := hexposed
    no_memory := hnone
    table := hentries
    no_table := hempty
    length_globals := fun i => (hlists.lt_length_iff i).trans (exists_congr fun index => by
      rw [h.isSome_recorded?])
    i32Global := fun {index} hexposed => ?_
    i64Global := fun {index} hexposed => ?_
    unexposed := fun {index} hexposed => ?_ }⟩
  · rw [Snapshot.capture, Store.run_bind_of_ok hmemory, Store.run_bind_of_ok htable,
      Store.run_bind_of_ok hreadings, hjoined]
    rfl
  · obtain ⟨address, cell, bits, haddress, hcell, -, hvalue, hrecorded⟩ := h.i32Global hexposed
    refine ⟨bits, ?_, (hlists.getElem? index).trans hrecorded⟩
    rw [Instance.value?_eq_some haddress hcell, hvalue]
  · obtain ⟨address, cell, bits, haddress, hcell, -, hvalue, hrecorded⟩ := h.i64Global hexposed
    refine ⟨bits, ?_, (hlists.getElem? index).trans hrecorded⟩
    rw [Instance.value?_eq_some haddress hcell, hvalue]
  · refine (hlists.getElem? index).trans ?_
    rw [Instance.recorded?, hexposed]
    rfl

end Instance.Exposes

/-- Capture is faithful. Whatever code a module holds that was given accessors, and whatever has
happened to an instance of it, it can be captured, which changes nothing, and the snapshot describes
its state. -/
theorem capture_describes [Host] {selection : Selection} {symbol : String} {bytes : Bytes}
    {sections : List Section} {original m : Declarations} {inst : Instance} {store : Store}
    (h : Prepared selection symbol bytes sections original m) (hof : inst.Of m store) :
    ∃ snapshot, store.run (Snapshot.capture symbol inst) = (.ok snapshot, store) ∧
      snapshot.Describes selection symbol original inst store :=
  (h.exposes hof).run_capture

/-! ### A sample -/

/-- The sample module with all its accessors, and an instance of it in a store of its own. -/
def sampleInstance? : Option (Module × Instance × Store) := do
  let out ← (instrument .all "_" (Section.encodeModule sampleSections)).toOption
  let m ← Module.compile? out.bytes
  match Store.run {} (Instance.ofModule m fun _ _ => none) with
  | (.ok inst, made) => pure (m, inst, made)
  | (.error _, _) => none

/-- What the sample module declares. -/
def sampleDeclarations : Declarations where
  toLayout := sampleLayout
  tables := [⟨.func, ⟨1, none⟩⟩]
  memories := 1
  exports := []

/-- A module that is made out of the sample, with everything that is known of it. -/
structure SampleOf (m : Module) (declared : Declarations) : Prop where
  prepared : Prepared .all "_" (Section.encodeModule sampleSections) sampleSections
    sampleDeclarations declared
  declares : m.Declares declared
  consistent : m.isConsistent = true

theorem prepared_sample {m : Module} {inst : Instance} {made : Store}
    (h : sampleInstance? = some (m, inst, made)) :
    ∃ declared, SampleOf m declared ∧ inst.Of declared made := by
  simp only [sampleInstance?, Option.bind_eq_bind, Option.bind_eq_some_iff] at h
  obtain ⟨out, hout, m', hcompiled, h⟩ := h
  have hinstrument : instrument .all "_" (Section.encodeModule sampleSections) = .ok out := by
    cases hresult : instrument .all "_" (Section.encodeModule sampleSections) with
    | error e => rw [hresult] at hout; cases hout
    | ok out' => rw [hresult] at hout; cases hout; rfl
  obtain ⟨declared, hdeclared, hdeclares, hconsistent⟩ := Module.declares_of_compile? hcompiled
  split at h
  · next inst' made' hmadeBy =>
    cases h
    exact ⟨declared, ⟨⟨framed_sample, by decide +kernel, rfl, List.forall_mem_nil _, out,
      hinstrument, hdeclared⟩, hdeclares, hconsistent⟩,
      (Instance.built_of_ofModule hmadeBy).of hdeclares hconsistent⟩
  · cases h

/-- What is found by looking at the sample instance is so of an instance of a prepared module. -/
theorem exists_sample {p : Instance → Store → Bool}
    (h : (sampleInstance?.any fun sample => p sample.2.1 sample.2.2) = true) :
    ∃ (declared : Declarations) (inst : Instance) (made : Store),
      Prepared .all "_" (Section.encodeModule sampleSections) sampleSections sampleDeclarations
        declared ∧
      inst.Of declared made ∧ p inst made = true := by
  obtain ⟨⟨m, inst, made⟩, hsample, hp⟩ := (Option.any_eq_true _ _).1 h
  obtain ⟨declared, hsampleOf, hof⟩ := prepared_sample hsample
  exact ⟨declared, inst, made, hsampleOf.prepared, hof, hp⟩

theorem capture_describes_sample : ∃ (declared : Declarations) (inst : Instance) (store : Store)
    (snapshot : Snapshot),
    Prepared .all "_" (Section.encodeModule sampleSections) sampleSections sampleDeclarations
      declared ∧
    inst.Of declared store ∧
    store.run (Snapshot.capture "_" inst) = (.ok snapshot, store) ∧
    snapshot.Describes .all "_" sampleDeclarations inst store := by
  have hsome : sampleInstance?.isSome = true := by decide +kernel
  obtain ⟨⟨m, inst, made⟩, hsample⟩ := Option.isSome_iff_exists.1 hsome
  obtain ⟨declared, hsampleOf, hof⟩ := prepared_sample hsample
  obtain ⟨snapshot, hcapture, hdescribes⟩ := capture_describes hsampleOf.prepared hof
  exact ⟨declared, inst, made, snapshot, hsampleOf.prepared, hof, hcapture, hdescribes⟩

end WasmSnapshot
