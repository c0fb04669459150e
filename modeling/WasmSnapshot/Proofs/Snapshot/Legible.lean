import WasmSnapshot.Proofs.Snapshot.Readings

/-! Capturing any instance whose getters can be called, whatever its exports are: the memory, the
table and the readings of the globals, where every accessor has one export. -/

namespace WasmSnapshot

/-- A function goes by the largest index that it is exported under. -/
def Instance.Names (symbol : String) (inst : Instance) (function : Address) (index : UInt32) : Prop :=
  (Accessor.function index, function) ∈ inst.accessors symbol ∧
  ∀ other, (Accessor.function other, function) ∈ inst.accessors symbol → other ≤ index

theorem Instance.Unambiguous.indexOf?_eq_some_iff {symbol : String} {inst : Instance}
    (h : inst.Unambiguous symbol) {function : Address} {index : UInt32} :
    (AccessorExports.ofInstance symbol inst).indexOf? function = some index ↔
      inst.Names symbol function index := by
  have hmem (entry : UInt32 × Address) :
      entry ∈ (AccessorExports.ofInstance symbol inst).functions.entries.filter (·.2 = function) ↔
        (Accessor.function entry.1, function) ∈ inst.accessors symbol ∧ entry.2 = function := by
    rw [List.mem_filter, decide_eq_true_iff]
    exact and_congr_left fun heq => by rw [← h.mem_functions_iff, ← heq]
  have hascending := (AccessorExports.ofInstance symbol inst).functions.ascending.filter
    fun entry => entry.2 = function
  rw [AccessorExports.indexOf?, Option.map_eq_some_iff]
  generalize (AccessorExports.ofInstance symbol inst).functions.entries.filter
    (·.2 = function) = entries at hmem hascending
  have hlast {entry : UInt32 × Address} (hentry : entries.getLast? = some entry)
      {other : UInt32 × Address} (hother : other ∈ entries) : other.1 ≤ entry.1 := by
    obtain ⟨before, rfl⟩ := List.getLast?_eq_some_iff.1 hentry
    rcases List.mem_append.1 hother with hother | hother
    · exact UInt32.le_of_lt
        ((List.pairwise_append.1 hascending).2.2 other hother entry List.mem_cons_self)
    · rw [List.mem_singleton.1 hother]
      exact UInt32.le_refl _
  constructor
  · rintro ⟨entry, hentry, rfl⟩
    refine ⟨((hmem entry).1 (List.mem_of_getLast? hentry)).1, fun other hother => ?_⟩
    exact hlast hentry ((hmem (other, function)).2 ⟨hother, rfl⟩)
  · rintro ⟨hindex, hlargest⟩
    have hin := (hmem (index, function)).2 ⟨hindex, rfl⟩
    cases hentry : entries.getLast? with
    | none =>
      rw [List.getLast?_eq_none_iff] at hentry
      rw [hentry] at hin
      cases hin
    | some entry =>
      have hentry' := ((hmem entry).1 (List.mem_of_getLast? hentry)).1
      exact ⟨entry, rfl, UInt32.le_antisymm (hlargest _ hentry') (hlast hentry hin)⟩

namespace Instance

variable [Host] {symbol : String} {inst : Instance} {store : Store}

/-- What a getter at an address returns, if it returns a value. -/
def returned? (store : Store) (address : Address) : Option Int32 :=
  (store.run (Capture.callGetter address)).1.toOption

/-- What is read through an accessor of an instance. -/
def reading? (symbol : String) (inst : Instance) (store : Store) (accessor : Accessor) :
    Option Int32 :=
  ((AccessorExports.ofInstance symbol inst).accessor? accessor).bind (returned? store)

/-- An instance that can be captured: no two exports are read as the same accessor, the memory and
the table that are found are in the store, and every getter returns a value and changes nothing. -/
structure Legible (symbol : String) (inst : Instance) (store : Store) : Prop where
  unambiguous : inst.Unambiguous symbol
  memory {address : Address} : (Accessor.memory, address) ∈ inst.accessors symbol →
    ∃ memory, store.memories[address]? = some memory
  table {address : Address} : (Accessor.table, address) ∈ inst.accessors symbol →
    ∃ table, store.tables[address]? = some table
  getters {accessor : Accessor} {address : Address} : (accessor, address) ∈ inst.accessors symbol →
    accessor.reads = true → ∃ bits,
      store.run (Run.callTyped Signature.getter.type address []) = (.ok [.i32 bits], store)

namespace Legible

variable (h : inst.Legible symbol store)

include h

theorem run_callGetter {accessor : Accessor} {address : Address}
    (hmem : (accessor, address) ∈ inst.accessors symbol) (hreads : accessor.reads = true) :
    ∃ value, returned? store address = some value ∧
      store.run (Capture.callGetter address) = (.ok value, store) := by
  obtain ⟨bits, hcall⟩ := h.getters hmem hreads
  have hrun := Capture.run_callGetter hcall
  exact ⟨_, by rw [returned?, hrun]; rfl, hrun⟩

/-- The getters are called one after another, and no reading takes the place of another. -/
theorem run_readAccessors : ∃ readings,
    store.run ((AccessorExports.ofInstance symbol inst).globals.foldlM Capture.readAccessor {}) =
      (.ok readings, store) ∧ readings.Hold (inst.reading? symbol store) := by
  have hcalls : ∀ entry ∈ (AccessorExports.ofInstance symbol inst).globals,
      entry.1.reads = true → store.run (Capture.callGetter entry.2) =
        (.ok ((returned? store entry.2).getD 0), store) := by
    intro entry hentry hreads
    obtain ⟨value, hvalue, hrun⟩ := h.run_callGetter (mem_globals_ofInstance.1 hentry).1 hreads
    rw [hvalue, hrun]
    rfl
  obtain ⟨readings, hrun, hhold⟩ := @Capture.run_readAccessors_hold store {}
    (fun address => (returned? store address).getD 0) _ _ [] Capture.hold_nil hcalls
  refine ⟨readings, hrun, hhold.congr fun accessor hreads => ?_⟩
  have hnodup : ((AccessorExports.ofInstance symbol inst).globals.map (·.1)).Nodup := by
    rw [globals_ofInstance]
    exact h.unambiguous.nodup_accessors.sublist (List.filter_sublist.map _)
  rw [List.nil_append, Capture.lastRead, AccessorExports.getLast?_candidates hnodup, reading?,
    AccessorExports.accessor?, AccessorExports.lookup_eq_head?_candidates]
  cases hfirst : (AccessorExports.candidates _ accessor).head? with
  | none => rfl
  | some address =>
    have hmem := AccessorExports.mem_candidates.1 (List.mem_of_head? hfirst)
    obtain ⟨value, hvalue, -⟩ := h.run_callGetter (mem_globals_ofInstance.1 hmem).1 hreads
    rw [Option.map_some, Option.bind_some, hvalue]
    rfl

theorem accessor?_eq_some_iff {accessor : Accessor} {address : Address}
    (hreads : accessor.reads = true) :
    (AccessorExports.ofInstance symbol inst).accessor? accessor = some address ↔
      (accessor, address) ∈ inst.accessors symbol := by
  rw [← h.unambiguous.resolve?_eq_some_iff]
  cases accessor with
  | i32Getter | i64GetterHigh | i64GetterLow => rfl
  | memory | table | function | i32Setter | i64Setter => cases hreads

/-- Something is read through an accessor exactly if there is such a getter. -/
theorem isSome_reading?_iff {accessor : Accessor} (hreads : accessor.reads = true) :
    (inst.reading? symbol store accessor).isSome = true ↔
      ∃ address, (accessor, address) ∈ inst.accessors symbol := by
  rw [reading?]
  cases hfound : (AccessorExports.ofInstance symbol inst).accessor? accessor with
  | none =>
    simp only [Option.bind_none, Option.isSome_none, Bool.false_eq_true, false_iff, not_exists]
    intro address hmem
    rw [(h.accessor?_eq_some_iff hreads).2 hmem] at hfound
    cases hfound
  | some address =>
    have hmem := (h.accessor?_eq_some_iff hreads).1 hfound
    obtain ⟨value, hvalue, -⟩ := h.run_callGetter hmem hreads
    rw [Option.bind_some, hvalue]
    exact ⟨fun _ => ⟨address, hmem⟩, fun _ => rfl⟩

theorem run_readMemory : ∃ memory,
    store.run (Capture.readMemory (AccessorExports.ofInstance symbol inst)) = (.ok memory, store) ∧
    ∀ words, memory = some words ↔ ∃ address found,
      (Accessor.memory, address) ∈ inst.accessors symbol ∧
      store.memories[address]? = some found ∧ words = found.words := by
  cases hfound : (AccessorExports.ofInstance symbol inst).memory with
  | none =>
    rw [Capture.readMemory, hfound]
    refine ⟨none, rfl, fun words => ⟨by rintro ⟨⟩, ?_⟩⟩
    rintro ⟨address, found, hmem, -⟩
    rw [h.unambiguous.memory_eq_some_iff.2 hmem] at hfound
    cases hfound
  | some address =>
    have hmem := h.unambiguous.memory_eq_some_iff.1 hfound
    obtain ⟨memory, hmemory⟩ := h.memory hmem
    rw [Capture.readMemory, hfound]
    refine ⟨some memory.words, ?_, fun words => ⟨?_, ?_⟩⟩
    · simp only
      rw [Store.run_bind_of_ok (Access.run_ofRun_of_ok (Run.run_memory hmemory))]
      rfl
    · rintro ⟨⟩
      exact ⟨address, memory, hmem, hmemory, rfl⟩
    · rintro ⟨other, found, hother, hfound', rfl⟩
      rw [h.unambiguous.address_unique hother hmem, hmemory] at hfound'
      cases hfound'
      rfl

theorem run_readTable : ∃ entries,
    store.run (Capture.readTable (AccessorExports.ofInstance symbol inst)) = (.ok entries, store) ∧
    (∀ i, i < entries.length ↔ ∃ address table, (Accessor.table, address) ∈ inst.accessors symbol ∧
      store.tables[address]? = some table ∧ i < table.slots.size) ∧
    ∀ (i : Nat) (index : UInt32), entries[i]? = some (some index) ↔ ∃ address table function,
      (Accessor.table, address) ∈ inst.accessors symbol ∧ store.tables[address]? = some table ∧
      table.function? i = some function ∧ inst.Names symbol function index := by
  cases hfound : (AccessorExports.ofInstance symbol inst).table with
  | none =>
    have habsent {address : Address} : (Accessor.table, address) ∉ inst.accessors symbol := by
      intro hmem
      rw [h.unambiguous.table_eq_some_iff.2 hmem] at hfound
      cases hfound
    rw [Capture.readTable, hfound]
    refine ⟨[], rfl, fun i => ⟨by rintro ⟨⟩, ?_⟩, fun i index => ⟨by rintro ⟨⟩, ?_⟩⟩
    · rintro ⟨address, table, hmem, -⟩
      exact absurd hmem habsent
    · rintro ⟨address, table, function, hmem, -⟩
      exact absurd hmem habsent
  | some address =>
    have hmem := h.unambiguous.table_eq_some_iff.1 hfound
    obtain ⟨table, htable⟩ := h.table hmem
    have honly {other : Address} {found : Table}
        (hother : (Accessor.table, other) ∈ inst.accessors symbol)
        (hin : store.tables[other]? = some found) : found = table := by
      rw [h.unambiguous.address_unique hother hmem, htable] at hin
      exact (Option.some.inj hin).symm
    rw [Capture.readTable, hfound]
    refine ⟨table.functions.map fun slot =>
      slot.bind (AccessorExports.ofInstance symbol inst).indexOf?, ?_, fun i => ?_,
      fun i index => ?_⟩
    · simp only
      rw [Store.run_bind_of_ok (Access.run_ofRun_of_ok (Run.run_table htable))]
      rfl
    · rw [List.length_map, Table.length_functions]
      constructor
      · exact fun hlt => ⟨address, table, hmem, htable, hlt⟩
      · rintro ⟨other, found, hother, hin, hlt⟩
        rwa [honly hother hin] at hlt
    · rw [List.getElem?_map, Option.map_eq_some_iff]
      constructor
      · rintro ⟨slot, hslot, hindex⟩
        obtain ⟨function, rfl, hindex⟩ := Option.bind_eq_some_iff.1 hindex
        exact ⟨address, table, function, hmem, htable, (Table.getElem?_functions.1 hslot).2,
          h.unambiguous.indexOf?_eq_some_iff.1 hindex⟩
      · rintro ⟨other, found, function, hother, hin, hslot, hfunction⟩
        rw [honly hother hin] at hslot
        exact ⟨some function, Table.getElem?_functions.2 ⟨Table.lt_of_function? hslot, hslot⟩,
          h.unambiguous.indexOf?_eq_some_iff.2 hfunction⟩

end Legible

end Instance

end WasmSnapshot
