import WasmSnapshot.Proofs.Snapshot.Capture
import WasmSnapshot.Proofs.Snapshot.Overlay

/-! Writing the parts of a snapshot to an instance. Each part is written if it fits, and only if. What
is written of it is told slot by slot, byte by byte and global by global. -/

namespace WasmSnapshot

namespace Restore

variable {store next : Store} {symbol : String} {exports : AccessorExports} {address : Address}

/-! ### Memory -/

section Memory

variable {memory grown : Memory} {words : Array UInt32}

theorem overlaid_of_grown (hpages : grown.pages.size = max memory.pages.size (pagesFor words.size))
    (hbytes : ∀ i, grown.byteAt i = memory.byteAt i) :
    memory.Overlaid (grown.overlay words) words where
  pages := by rw [size_pages_overlay, hpages]
  byteAt i := by
    by_cases hi : i < grown.size
    · rw [Memory.byteAt_overlay hi]
      cases words[i / 4]? with
      | some word => rfl
      | none => exact hbytes i
    · have hwords : words[i / 4]? = none := by
        refine Array.getElem?_eq_none ?_
        simp only [Memory.size, pagesFor, pageSize] at hi hpages
        omega
      have hsize : (grown.overlay words).size = grown.size := by
        rw [Memory.size, size_pages_overlay, Memory.size]
      rw [hwords, Memory.byteAt_of_size_le (by omega), ← hbytes,
        Memory.byteAt_of_size_le (Nat.le_of_not_lt hi)]

variable [Host]

/-- The memory may grow as far as the words need. -/
def HasRoom (memory : Memory) (words : Array UInt32) : Prop :=
  memory.pages.size < pagesFor words.size →
    (memory.grow? (pagesFor words.size - memory.pages.size)).isSome = true

theorem run_growMemory (store : Store) (h : HasRoom memory words) : ∃ grown,
    store.run (growMemory memory (pagesFor words.size)) = (.ok grown, store) ∧
    grown.max = memory.max ∧ grown.pages.size = max memory.pages.size (pagesFor words.size) ∧
    ∀ i, grown.byteAt i = memory.byteAt i := by
  rw [growMemory]
  by_cases hlt : memory.pages.size < pagesFor words.size
  · obtain ⟨grown, hgrown⟩ := Option.isSome_iff_exists.1 (h hlt)
    rw [if_pos hlt, hgrown]
    refine ⟨grown, rfl, Memory.max_of_grow? hgrown, ?_, fun i => Memory.byteAt_grow? hgrown⟩
    rw [Exec.size_of_grow? hgrown]
    omega
  · rw [if_neg hlt]
    exact ⟨memory, rfl, rfl, by omega, fun i => rfl⟩

theorem run_writeMemory (hmemory : store.memories[address]? = some memory)
    (h : HasRoom memory words) : ∃ after, memory.Overlaid after words ∧ after.max = memory.max ∧
      store.run (writeMemory address words) = (.ok (), { store with
        memories := store.memories.setIfInBounds address after }) := by
  obtain ⟨grown, hgrown, hmax, hpages, hbytes⟩ := run_growMemory store h
  refine ⟨grown.overlay words, overlaid_of_grown hpages hbytes, hmax, ?_⟩
  have hholds : grown.holds 0 (4 * words.size) = true := by
    refine decide_eq_true ?_
    simp only [Memory.size, pagesFor, pageSize] at hpages ⊢
    omega
  rw [writeMemory, Store.run_bind_of_ok (Access.run_ofRun_of_ok (Run.run_memory hmemory)),
    Store.run_bind_of_ok hgrown, if_pos hholds]
  rfl

theorem hasRoom_of_writeMemory (hmemory : store.memories[address]? = some memory)
    (h : store.run (writeMemory address words) = (.ok (), next)) : HasRoom memory words := by
  intro hlt
  rw [writeMemory, Store.run_bind_of_ok (Access.run_ofRun_of_ok (Run.run_memory hmemory))] at h
  obtain ⟨grown, _, hgrown, -⟩ := Store.run_bind_eq_ok h
  rw [growMemory, if_pos hlt] at hgrown
  split at hgrown
  · next hsome => rw [hsome]; rfl
  · cases hgrown

end Memory

/-! ### Table -/

section Table

variable {table grown : Table} {entries : List (Option UInt32)} {length : Nat}

/-- One slot. -/
theorem run_writeSlot_some (symbol : String) {index : UInt32} {function : Address} {slot : Nat}
    (htable : store.tables[address]? = some table) (hholds : table.holdsFunctions = true)
    (hfunction : exports.functions.get? index = some function) (hslot : slot < table.slots.size) :
    store.run (writeSlot symbol exports address (some index, slot)) = (.ok (), { store with
      tables := store.tables.setIfInBounds address (table.set slot (some function)) }) := by
  simp only [writeSlot, hfunction]
  refine Access.run_ofRun_of_ok ?_
  have haccepts : table.accepts (some function) = true := by rw [Table.accepts, hholds]; rfl
  rw [Run.setSlot, Store.run_bind_of_ok (Run.run_table htable), if_pos hslot, if_pos haccepts,
    Store.run_modify, Array.modify_eq_setIfInBounds htable]

theorem function?_set_self {slot : Nat} {value : Option Address}
    (hholds : table.holdsFunctions = true) (hslot : slot < table.slots.size) :
    (table.set slot value).function? slot = value := by
  have hholds' : (table.set slot value).holdsFunctions = true := hholds
  rw [Table.function?, if_pos hholds', Table.set, Array.getElem?_setIfInBounds_self_of_lt hslot]
  rfl

theorem function?_set_ne {slot i : Nat} {value : Option Address} (hne : slot ≠ i) :
    (table.set slot value).function? i = table.function? i := by
  simp only [Table.function?, Table.set, Array.getElem?_setIfInBounds_ne hne]
  rfl

/-- All slots from one on. -/
theorem run_writeSlots {first : Nat} (htable : store.tables[address]? = some table)
    (hholds : table.holdsFunctions = true)
    (hfound : ∀ (i : Nat) (index : UInt32), entries[i]? = some (some index) →
      ∃ function, exports.functions.get? index = some function)
    (hroom : first + entries.length ≤ table.slots.size) :
    ∃ after, store.run ((entries.zipIdx first).forM (writeSlot symbol exports address)) =
        (.ok (), { store with tables := store.tables.setIfInBounds address after }) ∧
      after.slots.size = table.slots.size ∧
      ∀ (i : Nat) (function : Address), after.function? i = some function ↔
        match Snapshot.entryAt first entries i with
        | some index => exports.functions.get? index = some function
        | none => table.function? i = some function := by
  -- The rest of the entries stands for slots past the first, so it leaves that one as it was written.
  induction entries generalizing store table first with
  | nil =>
    refine ⟨table, ?_, rfl, fun i function => Iff.rfl⟩
    rw [Array.setIfInBounds_of_getElem? htable]
    rfl
  | cons entry entries ih =>
    have hrest (i : Nat) (index : UInt32) (h : entries[i]? = some (some index)) :
        ∃ function, exports.functions.get? index = some function :=
      hfound (i + 1) index (by simpa using h)
    rw [List.length_cons] at hroom
    have hroom' : first + 1 + entries.length ≤ table.slots.size := by omega
    cases entry with
    | none =>
      obtain ⟨after, hrun, hsize, hslots⟩ := ih htable hholds hrest hroom'
      refine ⟨after, hrun, hsize, fun i function => (hslots i function).trans ?_⟩
      rw [Snapshot.entryAt]
      by_cases heq : i = first
      · rw [if_pos heq, heq, Snapshot.entryAt_of_lt (Nat.lt_succ_self first)]
      · rw [if_neg heq]
    | some index =>
      obtain ⟨function, hfunction⟩ := hfound 0 index rfl
      have hfirst : first < table.slots.size := by omega
      have hwrite := run_writeSlot_some symbol htable hholds hfunction hfirst
      obtain ⟨hlt, -⟩ := Array.getElem?_eq_some_iff.1 htable
      rw [← table.size_set first (some function)] at hroom'
      obtain ⟨after, hrun, hsize, hslots⟩ := @ih { store with
        tables := store.tables.setIfInBounds address (table.set first (some function)) }
        _ _ (Array.getElem?_setIfInBounds_self_of_lt hlt) hholds hrest hroom'
      refine ⟨after, ?_, hsize.trans (table.size_set first (some function)), fun i other =>
        (hslots i other).trans ?_⟩
      · refine (Store.run_bind_of_ok hwrite).trans (hrun.trans ?_)
        simp only [Array.setIfInBounds_setIfInBounds]
      · rw [Snapshot.entryAt]
        by_cases heq : i = first
        · subst heq
          rw [if_pos rfl, Snapshot.entryAt_of_lt (Nat.lt_succ_self i)]
          simp only [function?_set_self hholds hfirst, hfunction]
        · simp only [if_neg heq, function?_set_ne (Ne.symm heq)]

/-- A slot that is written to is one of a table of functions. -/
theorem writeSlot_some_eq_ok {index : UInt32} {slot : Nat}
    (htable : store.tables[address]? = some table)
    (h : store.run (writeSlot symbol exports address (some index, slot)) = (.ok (), next)) :
    table.holdsFunctions = true ∧ ∃ function, exports.functions.get? index = some function := by
  simp only [writeSlot] at h
  cases hfunction : exports.functions.get? index with
  | none => rw [hfunction] at h; cases h
  | some function =>
    refine ⟨?_, function, rfl⟩
    rw [hfunction] at h
    have hset := Access.run_ofRun_eq_ok h
    rw [Run.setSlot, Store.run_bind_of_ok (Run.run_table htable)] at hset
    split at hset
    · split at hset
      · next haccepts => simpa [Table.accepts] using haccepts
      · cases hset
    · cases hset

theorem found_of_writeSlots {first : Nat} (htable : store.tables[address]? = some table)
    (h : store.run ((entries.zipIdx first).forM (writeSlot symbol exports address)) =
      (.ok (), next)) {i : Nat} {index : UInt32} (hi : entries[i]? = some (some index)) :
    table.holdsFunctions = true ∧ ∃ function, exports.functions.get? index = some function := by
  induction entries generalizing store table first i with
  | nil => cases hi
  | cons entry entries ih =>
    obtain ⟨_, written, hwrite, hrest⟩ := Store.run_bind_eq_ok h
    cases i with
    | zero =>
      cases hi
      exact writeSlot_some_eq_ok htable hwrite
    | succ i =>
      have hextends : store.Extends written := Within.of_run hwrite
      obtain ⟨table', htable', hextended⟩ := hextends.tables htable
      obtain ⟨hholds, hfunction⟩ := ih htable' hrest (by simpa using hi)
      exact ⟨hextended.holdsFunctions_eq.symm.trans hholds, hfunction⟩

variable [Host]

/-- The slots that come to a table hold no function. -/
theorem function?_of_grow? {added : Nat} (h : table.grow? added none = some grown) (i : Nat) :
    grown.function? i = table.function? i := by
  obtain ⟨rfl, -⟩ := Table.grow?_eq_some h
  have hslots : (table.slots ++ Array.replicate added none)[i]?.join = table.slots[i]?.join := by
    by_cases hi : i < table.slots.size
    · rw [Array.getElem?_append_left hi]
    · rw [Array.getElem?_append_right (Nat.le_of_not_lt hi), Array.getElem?_replicate,
        Array.getElem?_eq_none (Nat.le_of_not_lt hi)]
      split <;> rfl
  rw [Table.function?, Table.function?, hslots]
  rfl

/-- The table may grow to the given length. -/
def HasSlots (table : Table) (length : Nat) : Prop :=
  table.slots.size < length → (table.grow? (length - table.slots.size) none).isSome = true

theorem run_growTable (htable : store.tables[address]? = some table) (h : HasSlots table length) :
    ∃ grown, store.run (growTable address length) =
        (.ok (), { store with tables := store.tables.setIfInBounds address grown }) ∧
      grown.element = table.element ∧ grown.slots.size = max table.slots.size length ∧
      ∀ i, grown.function? i = table.function? i := by
  rw [growTable, Store.run_bind_of_ok (Access.run_ofRun_of_ok (Run.run_table htable))]
  by_cases hlt : table.slots.size < length
  · obtain ⟨grown, hgrown⟩ := Option.isSome_iff_exists.1 (h hlt)
    refine ⟨grown, ?_, (Table.extends_of_grow? hgrown).element_eq, ?_,
      function?_of_grow? hgrown⟩
    · rw [if_pos hlt]
      simp only
      rw [hgrown]
      rfl
    · rw [(Table.size_of_grow? hgrown).1]
      omega
  · refine ⟨table, ?_, rfl, by omega, fun i => rfl⟩
    rw [if_neg hlt, Array.setIfInBounds_of_getElem? htable]
    rfl

theorem hasSlots_of_growTable (htable : store.tables[address]? = some table)
    (h : store.run (growTable address length) = (.ok (), next)) : HasSlots table length := by
  intro hlt
  rw [growTable, Store.run_bind_of_ok (Access.run_ofRun_of_ok (Run.run_table htable)),
    if_pos hlt] at h
  obtain ⟨grown, _, hgrown, -⟩ := Store.run_bind_eq_ok h
  obtain ⟨hsome, -⟩ := Run.run_require_eq_ok (Access.run_ofRun_eq_ok hgrown)
  rw [hsome]
  rfl

/-- A table of functions takes the entries if it may become long enough and all functions that they
record are there. -/
theorem run_writeTable (symbol : String) (htable : store.tables[address]? = some table)
    (hholds : table.holdsFunctions = true) (hlength : entries.length < 2 ^ 32)
    (hslots : HasSlots table entries.length)
    (hfound : ∀ (i : Nat) (index : UInt32), entries[i]? = some (some index) →
      ∃ function, exports.functions.get? index = some function) :
    ∃ written, store.run (writeTable symbol exports address entries) =
        (.ok (), { store with tables := store.tables.setIfInBounds address written }) ∧
      written.slots.size = max table.slots.size entries.length ∧
      ∀ (i : Nat) (function : Address), written.function? i = some function ↔
        match entries[i]?.join with
        | some index => exports.functions.get? index = some function
        | none => table.function? i = some function := by
  obtain ⟨hlt, -⟩ := Array.getElem?_eq_some_iff.1 htable
  obtain ⟨grown, hgrow, helement, hsize, hkept⟩ := run_growTable htable hslots
  have hholds' : grown.holdsFunctions = true := by
    rw [Table.holdsFunctions, helement]
    exact hholds
  have hroom : 0 + entries.length ≤ grown.slots.size := by omega
  obtain ⟨written, hwrite, hsize', hwritten⟩ := @run_writeSlots
    { store with tables := store.tables.setIfInBounds address grown } symbol exports address grown
    entries 0 (Array.getElem?_setIfInBounds_self_of_lt hlt) hholds' hfound hroom
  simp only [Array.setIfInBounds_setIfInBounds] at hwrite
  refine ⟨written, ?_, hsize'.trans hsize, fun i function => ?_⟩
  · have hfits : ¬ UInt32.size ≤ entries.length := Nat.not_le_of_lt hlength
    rw [writeTable, if_neg hfits, Store.run_bind_of_ok hgrow]
    exact hwrite
  · have hentry := Snapshot.entryAt_add 0 entries i
    rw [Nat.zero_add] at hentry
    rw [hwritten, hentry]
    cases entries[i]?.join with
    | none => rw [hkept]
    | some index => exact Iff.rfl

/-- The conditions are met by all that has been written, if it was anything. -/
theorem fits_of_writeTable (htable : store.tables[address]? = some table)
    (h : store.run (writeTable symbol exports address entries) = (.ok (), next))
    (hany : entries.any Option.isSome = true) :
    entries.length < 2 ^ 32 ∧ table.holdsFunctions = true ∧ HasSlots table entries.length ∧
      ∀ (i : Nat) (index : UInt32), entries[i]? = some (some index) →
        ∃ function, exports.functions.get? index = some function := by
  unfold writeTable at h
  split at h
  · cases h
  · next hlength =>
    obtain ⟨_, grown, hgrow, hwrite⟩ := Store.run_bind_eq_ok h
    have hextends : store.Extends grown := Within.of_run hgrow
    obtain ⟨table', htable', hextended⟩ := hextends.tables htable
    have hfound (i : Nat) (index : UInt32) (hi : entries[i]? = some (some index)) :=
      found_of_writeSlots htable' hwrite hi
    obtain ⟨i, index, hi⟩ := Snapshot.any_isSome_iff.1 hany
    exact ⟨Nat.lt_of_not_le hlength, hextended.holdsFunctions_eq.symm.trans (hfound i index hi).1,
      hasSlots_of_growTable htable hgrow, fun i index hi => (hfound i index hi).2⟩

end Table

end Restore

/-! ### What is exposed of an instance -/

namespace Instance

variable {selection : Selection} {symbol : String} {original : Declarations}
  {inst : Instance} {store next : Store}

theorem exposedMemory?_congr (h : next.memories = store.memories) :
    inst.exposedMemory? selection original next = inst.exposedMemory? selection original store := by
  rw [exposedMemory?, exposedMemory?, h]

theorem exposedTable?_congr (h : next.tables = store.tables) :
    inst.exposedTable? selection original next = inst.exposedTable? selection original store := by
  rw [exposedTable?, exposedTable?, h]

theorem value?_congr (h : next.globals = store.globals) (index : UInt32) :
    inst.value? next index = inst.value? store index := by
  rw [value?, value?, h]

namespace Exposes

variable (h : inst.Exposes selection symbol original store)

include h

theorem exposedMemory?_of_found {address : Address}
    (haddress : (AccessorExports.ofInstance symbol inst).memory = some address) : ∃ memory,
    store.memories[address]? = some memory ∧
    inst.exposedMemory? selection original store = some memory := by
  rw [h.memory] at haddress
  cases hexposes : selection.exposesMemory original with
  | false => rw [Selection.memory?, hexposes] at haddress; cases haddress
  | true =>
    obtain ⟨address', memory, haddress', hmemory, hexposed⟩ := h.exposedMemory hexposes
    rw [haddress] at haddress'
    cases haddress'
    exact ⟨memory, hmemory, hexposed⟩

theorem exposedTable?_of_found {address : Address}
    (haddress : (AccessorExports.ofInstance symbol inst).table = some address) : ∃ table,
    store.tables[address]? = some table ∧
    inst.exposedTable? selection original store = some table := by
  rw [h.table] at haddress
  cases hexposes : selection.exposesTable original with
  | false => rw [Selection.table?, hexposes] at haddress; cases haddress
  | true =>
    obtain ⟨address', table, haddress', htable, hexposed⟩ := h.exposedTable hexposes
    rw [haddress] at haddress'
    cases haddress'
    exact ⟨table, htable, hexposed⟩

theorem found_of_exposedMemory? {memory : Memory}
    (hexposed : inst.exposedMemory? selection original store = some memory) : ∃ address,
    (AccessorExports.ofInstance symbol inst).memory = some address ∧
    store.memories[address]? = some memory := by
  obtain ⟨address, haddress, hmemory⟩ := Option.bind_eq_some_iff.1 hexposed
  exact ⟨address, h.memory.trans haddress, hmemory⟩

theorem found_of_exposedTable? {table : Table}
    (hexposed : inst.exposedTable? selection original store = some table) : ∃ address,
    (AccessorExports.ofInstance symbol inst).table = some address ∧
    store.tables[address]? = some table := by
  obtain ⟨address, haddress, htable⟩ := Option.bind_eq_some_iff.1 hexposed
  exact ⟨address, h.table.trans haddress, htable⟩

/-- Functions of the module are found under their indices. -/
theorem get?_functions_iff {index : UInt32} {function : Address} :
    (AccessorExports.ofInstance symbol inst).functions.get? index = some function ↔
      original.OwnFunction inst.scope index function :=
  IndexMap.get?_eq_some_iff.trans h.mem_functions

variable [Host]

theorem run_restoreMemory {recorded : Option (Array UInt32)}
    (hfits : ∀ words, recorded = some words → ∃ memory,
      inst.exposedMemory? selection original store = some memory ∧
      Restore.HasRoom memory words) : ∃ next,
    store.run (Restore.restoreMemory symbol (AccessorExports.ofInstance symbol inst) recorded) =
      (.ok (), next) ∧
    next.tables = store.tables ∧ next.globals = store.globals ∧
    ∀ memory, inst.exposedMemory? selection original store = some memory → ∃ memory',
      inst.exposedMemory? selection original next = some memory' ∧
      memory.Rewritten recorded memory' := by
  cases recorded with
  | none => exact ⟨store, rfl, rfl, rfl, fun memory hexposed => ⟨memory, hexposed, rfl⟩⟩
  | some words =>
    obtain ⟨memory, hexposed, hroom⟩ := hfits words rfl
    obtain ⟨address, haddress, hmemory⟩ := h.found_of_exposedMemory? hexposed
    obtain ⟨written, hoverlaid, -, hrun⟩ := Restore.run_writeMemory hmemory hroom
    obtain ⟨hlt, -⟩ := Array.getElem?_eq_some_iff.1 hmemory
    refine ⟨{ store with memories := store.memories.setIfInBounds address written }, ?_, rfl, rfl,
      fun memory' hexposed' => ⟨written, ?_, ?_⟩⟩
    · rw [Restore.restoreMemory, haddress]
      exact hrun
    · rw [exposedMemory?, ← h.memory, haddress]
      exact Array.getElem?_setIfInBounds_self_of_lt hlt
    · rw [hexposed] at hexposed'
      cases hexposed'
      exact hoverlaid

theorem fits_of_restoreMemory {recorded : Option (Array UInt32)} {next : Store}
    (hrun : store.run (Restore.restoreMemory symbol (AccessorExports.ofInstance symbol inst)
      recorded) = (.ok (), next)) {words : Array UInt32} (hwords : recorded = some words) :
    ∃ memory, inst.exposedMemory? selection original store = some memory ∧
      Restore.HasRoom memory words := by
  subst hwords
  cases haddress : (AccessorExports.ofInstance symbol inst).memory with
  | none =>
    rw [Restore.restoreMemory, haddress] at hrun
    cases hrun
  | some address =>
    rw [Restore.restoreMemory, haddress] at hrun
    obtain ⟨memory, hmemory, hexposed⟩ := h.exposedMemory?_of_found haddress
    exact ⟨memory, hexposed, Restore.hasRoom_of_writeMemory hmemory hrun⟩

theorem run_restoreTable {entries : List (Option UInt32)}
    (htable : entries.any Option.isSome = true → entries.length < 2 ^ 32 ∧ ∃ table,
      inst.exposedTable? selection original store = some table ∧
      table.holdsFunctions = true ∧ Restore.HasSlots table entries.length)
    (hfunctions : ∀ (i : Nat) (index : UInt32), entries[i]? = some (some index) →
      ∃ address, original.OwnFunction inst.scope index address) : ∃ next,
    store.run (Restore.restoreTable symbol (AccessorExports.ofInstance symbol inst) entries) =
      (.ok (), next) ∧
    next.memories = store.memories ∧ next.globals = store.globals ∧
    ∀ table, inst.exposedTable? selection original store = some table → ∃ table',
      inst.exposedTable? selection original next = some table' ∧
      (table'.slots.size = if entries.any Option.isSome then
        max table.slots.size entries.length else table.slots.size) ∧
      ∀ (i : Nat) (function : Address), table'.function? i = some function ↔
        match entries[i]?.join with
        | some index => original.OwnFunction inst.scope index function
        | none => table.function? i = some function := by
  cases hany : entries.any Option.isSome with
  | false =>
    refine ⟨store, ?_, rfl, rfl, fun table hexposed => ⟨table, hexposed, rfl, fun i function => ?_⟩⟩
    · rw [Restore.restoreTable, hany]
      rfl
    · rw [Snapshot.join_getElem?_of_any_eq_false hany]
  | true =>
    obtain ⟨hlength, table, hexposed, hholds, hslots⟩ := htable hany
    obtain ⟨address, haddress, htable⟩ := h.found_of_exposedTable? hexposed
    obtain ⟨hlt, -⟩ := Array.getElem?_eq_some_iff.1 htable
    have hfound (i : Nat) (index : UInt32) (hi : entries[i]? = some (some index)) : ∃ function,
        (AccessorExports.ofInstance symbol inst).functions.get? index = some function := by
      obtain ⟨function, hown⟩ := hfunctions i index hi
      exact ⟨function, h.get?_functions_iff.2 hown⟩
    obtain ⟨written, hwrite, hsize, hwritten⟩ :=
      Restore.run_writeTable symbol htable hholds hlength hslots hfound
    refine ⟨{ store with tables := store.tables.setIfInBounds address written }, ?_, rfl, rfl,
      fun table' hexposed' => ⟨written, ?_, ?_, fun i function => ?_⟩⟩
    · rw [Restore.restoreTable, if_pos hany, haddress]
      exact hwrite
    · rw [exposedTable?, ← h.table, haddress]
      exact Array.getElem?_setIfInBounds_self_of_lt hlt
    · rw [hexposed] at hexposed'
      cases hexposed'
      rw [hsize, if_pos rfl]
    · rw [hexposed] at hexposed'
      cases hexposed'
      rw [hwritten]
      cases entries[i]?.join with
      | none => exact Iff.rfl
      | some index => exact h.get?_functions_iff

theorem fits_of_restoreTable {entries : List (Option UInt32)} {next : Store}
    (hrun : store.run (Restore.restoreTable symbol (AccessorExports.ofInstance symbol inst)
      entries) = (.ok (), next)) (hany : entries.any Option.isSome = true) :
    (entries.length < 2 ^ 32 ∧ ∃ table,
      inst.exposedTable? selection original store = some table ∧
      table.holdsFunctions = true ∧ Restore.HasSlots table entries.length) ∧
    ∀ (i : Nat) (index : UInt32), entries[i]? = some (some index) →
      ∃ address, original.OwnFunction inst.scope index address := by
  rw [Restore.restoreTable, if_pos hany] at hrun
  split at hrun
  · cases hrun
  · next address haddress =>
    obtain ⟨table, htable, hexposed⟩ := h.exposedTable?_of_found haddress
    obtain ⟨hlength, hholds, hslots, hfound⟩ := Restore.fits_of_writeTable htable hrun hany
    refine ⟨⟨hlength, table, hexposed, hholds, hslots⟩, fun i index hi => ?_⟩
    obtain ⟨function, hfunction⟩ := hfound i index hi
    exact ⟨function, h.get?_functions_iff.1 hfunction⟩

end Exposes

end Instance

/-! ### Globals -/

namespace Instance.Exposes

variable {selection : Selection} {symbol : String} {original : Declarations} {inst : Instance}
  {store next : Store}

/-- The accessor of an exposed global that is found by its name. -/
theorem accessor_found (h : inst.Exposes selection symbol original store)
    {function : AccessorFunction} {type : IntType} {index : UInt32}
    (hexposed : selection.exposed? original.imports original.globals index = some type)
    (hfunction : function ∈ type.accessorFunctions index) : ∃ address,
      (AccessorExports.ofInstance symbol inst).accessor? function.accessor = some address ∧
      store.functions[address]? =
        some (.code function.signature.type inst.scope function.code) := by
  obtain ⟨address, hmem⟩ := h.complete hexposed hfunction
  cases hlookup : (AccessorExports.ofInstance symbol inst).accessor? function.accessor with
  | none =>
    have hnone := List.lookup_eq_none_iff.1 hlookup _ hmem
    simp at hnone
  | some found =>
    obtain ⟨before, after, heq, -⟩ := List.lookup_eq_some_iff.1 hlookup
    have hfound : (function.accessor, found) ∈ (AccessorExports.ofInstance symbol inst).globals := by
      rw [heq]
      exact List.mem_append_right _ List.mem_cons_self
    exact ⟨found, rfl, (h.found hfunction hfound).2⟩

/-- What is found by the name of an accessor serves an exposed global. -/
theorem exposed_of_accessor? (h : inst.Exposes selection symbol original store)
    {function : AccessorFunction} {type : IntType} {index : UInt32} {address : Address}
    (hfunction : function ∈ type.accessorFunctions index)
    (hlookup : (AccessorExports.ofInstance symbol inst).accessor? function.accessor =
      some address) :
    selection.exposed? original.imports original.globals index = some type := by
  obtain ⟨before, after, heq, -⟩ := List.lookup_eq_some_iff.1 hlookup
  have hfound : (function.accessor, address) ∈ (AccessorExports.ofInstance symbol inst).globals := by
    rw [heq]
    exact List.mem_append_right _ List.mem_cons_self
  exact (h.found hfunction hfound).1

/-- Only one global has a new value. -/
theorem value?_set (h : inst.Exposes selection symbol original store) {index : UInt32}
    {type : IntType} {address : Address} {cell changed : GlobalCell}
    (hexposed : selection.exposed? original.imports original.globals index = some type)
    (haddress : inst.scope.globals[index.toNat]? = some address)
    (hcell : store.globals[address]? = some cell) {other : UInt32} {otherType : IntType}
    (hother : selection.exposed? original.imports original.globals other = some otherType) :
    inst.value? { store with globals := store.globals.setIfInBounds address changed } other =
      if other = index then some changed.value else inst.value? store other := by
  obtain ⟨otherAddress, otherCell, hotherAddress, hotherCell, -⟩ := h.global_found hother
  obtain ⟨hlt, -⟩ := Array.getElem?_eq_some_iff.1 hcell
  by_cases heq : other = index
  · subst heq
    rw [if_pos rfl]
    exact Instance.value?_eq_some haddress (Array.getElem?_setIfInBounds_self_of_lt hlt)
  · have hne : address ≠ otherAddress := fun hsame =>
      heq (h.global_injective hother hexposed hotherAddress (hsame ▸ haddress))
    rw [if_neg heq, Instance.value?_eq_some hotherAddress hotherCell]
    refine Instance.value?_eq_some hotherAddress ?_
    rw [Array.getElem?_setIfInBounds_ne hne]
    exact hotherCell

variable [Host]

/-- The setter of an exposed global gives the cell of the global the recorded value. -/
theorem run_writeGlobal_set (h : inst.Exposes selection symbol original store) {index : UInt32}
    {value : GlobalValue}
    (hexposed : selection.exposed? original.imports original.globals index =
      some value.intType) :
    ∃ address cell, ∃ hasType : value.toValue.hasType cell.type.value,
      inst.scope.globals[index.toNat]? = some address ∧ store.globals[address]? = some cell ∧
      store.run (Restore.writeGlobal symbol (AccessorExports.ofInstance symbol inst)
        (some value, index.toNat)) = (.ok (), { store with
          globals := store.globals.setIfInBounds address ⟨cell.type, value.toValue, hasType⟩ }) := by
  have hposition : ¬ UInt32.size ≤ index.toNat + 1 := Nat.not_le_of_lt (h.index_lt hexposed)
  cases value with
  | i32 value =>
    obtain ⟨function, hlookup, hcode⟩ := h.accessor_found hexposed (IntType.i32Setter_mem index)
    obtain ⟨address, cell, -, haddress, hcell, htype, -, -⟩ := h.i32Global hexposed
    have hasType : (GlobalValue.i32 value).toValue.hasType cell.type.value := by rw [htype]; rfl
    refine ⟨address, cell, hasType, haddress, hcell, ?_⟩
    rw [Restore.writeGlobal, if_neg hposition]
    simp only [Restore.setterFor, UInt32.ofNat_toNat, hlookup]
    rw [Store.run_bind_of_ok (Access.run_ofRun_of_ok
      (run_i32Setter hcode haddress hcell hasType))]
    rfl
  | i64 high low =>
    obtain ⟨function, hlookup, hcode⟩ := h.accessor_found hexposed (IntType.i64Setter_mem index)
    obtain ⟨address, cell, -, haddress, hcell, htype, -, -⟩ := h.i64Global hexposed
    have hasType : (GlobalValue.i64 high low).toValue.hasType cell.type.value := by rw [htype]; rfl
    refine ⟨address, cell, hasType, haddress, hcell, ?_⟩
    rw [Restore.writeGlobal, if_neg hposition]
    simp only [Restore.setterFor, UInt32.ofNat_toNat, hlookup]
    rw [Store.run_bind_of_ok (Access.run_ofRun_of_ok
      (run_i64Setter hcode haddress hcell hasType))]
    rfl

/-- No other exposed global is given the recorded value. -/
theorem run_writeGlobal_some (h : inst.Exposes selection symbol original store) {index : UInt32}
    {value : GlobalValue}
    (hexposed : selection.exposed? original.imports original.globals index =
      some value.intType) : ∃ next,
    store.run (Restore.writeGlobal symbol (AccessorExports.ofInstance symbol inst)
      (some value, index.toNat)) = (.ok (), next) ∧
    next.tables = store.tables ∧ next.memories = store.memories ∧
    ∀ other type, selection.exposed? original.imports original.globals other = some type →
      inst.value? next other =
        if other = index then some value.toValue else inst.value? store other := by
  obtain ⟨address, cell, hasType, haddress, hcell, hrun⟩ := h.run_writeGlobal_set hexposed
  exact ⟨_, hrun, rfl, rfl, fun other type hother => h.value?_set hexposed haddress hcell hother⟩

theorem exposed_of_writeGlobal (h : inst.Exposes selection symbol original store) {i : Nat}
    {value : GlobalValue}
    (hrun : store.run (Restore.writeGlobal symbol (AccessorExports.ofInstance symbol inst)
      (some value, i)) = (.ok (), next)) :
    i + 1 < 2 ^ 32 ∧ selection.exposed? original.imports original.globals (UInt32.ofNat i) =
      some value.intType := by
  rw [Restore.writeGlobal] at hrun
  split at hrun
  · cases hrun
  · next hposition =>
    refine ⟨Nat.lt_of_not_le hposition, ?_⟩
    cases value with
    | i32 value =>
      simp only [Restore.setterFor] at hrun
      split at hrun
      · cases hrun
      · next address hlookup =>
        exact h.exposed_of_accessor? (IntType.i32Setter_mem (UInt32.ofNat i)) hlookup
    | i64 high low =>
      simp only [Restore.setterFor] at hrun
      split at hrun
      · cases hrun
      · next address hlookup =>
        exact h.exposed_of_accessor? (IntType.i64Setter_mem (UInt32.ofNat i)) hlookup

/-- All globals from one on. -/
theorem run_writeGlobals (h : inst.Exposes selection symbol original store)
    {entries : List (Option GlobalValue)} {first : Nat} (hlt : first + entries.length < 2 ^ 32)
    (hfits : ∀ index value, Snapshot.entryAt first entries index.toNat = some value →
      selection.exposed? original.imports original.globals index = some value.intType) :
    ∃ next, store.run ((entries.zipIdx first).forM
        (Restore.writeGlobal symbol (AccessorExports.ofInstance symbol inst))) = (.ok (), next) ∧
      next.tables = store.tables ∧ next.memories = store.memories ∧
      ∀ index type, selection.exposed? original.imports original.globals index = some type →
        inst.value? next index =
          match Snapshot.entryAt first entries index.toNat with
          | some value => some value.toValue
          | none => inst.value? store index := by
  induction entries generalizing store first with
  | nil => exact ⟨store, rfl, rfl, rfl, fun index type _ => rfl⟩
  | cons entry entries ih =>
    rw [List.length_cons] at hlt
    have hlt' : first + 1 + entries.length < 2 ^ 32 := by omega
    have hfits' (index : UInt32) (value : GlobalValue)
        (hentry : Snapshot.entryAt (first + 1) entries index.toNat = some value) :
        selection.exposed? original.imports original.globals index = some value.intType := by
      refine hfits index value ?_
      rw [Snapshot.entryAt, if_neg fun heq => ?_]
      · exact hentry
      · rw [heq, Snapshot.entryAt_of_lt (Nat.lt_succ_self first)] at hentry
        cases hentry
    cases entry with
    | none =>
      have hposition : ¬ UInt32.size ≤ first + 1 :=
        Nat.not_le_of_lt (Nat.lt_of_le_of_lt (by omega) hlt)
      have hwrite : store.run (Restore.writeGlobal symbol (AccessorExports.ofInstance symbol inst)
          (none, first)) = (.ok (), store) := by
        rw [Restore.writeGlobal, if_neg hposition]
        rfl
      obtain ⟨next, hrun, htables, hmemories, hvalues⟩ := ih h hlt' hfits'
      refine ⟨next, (Store.run_bind_of_ok hwrite).trans hrun, htables, hmemories,
        fun index type hexposed => ?_⟩
      rw [hvalues index type hexposed, Snapshot.entryAt]
      by_cases heq : index.toNat = first
      · rw [if_pos heq, heq, Snapshot.entryAt_of_lt (Nat.lt_succ_self first)]
      · rw [if_neg heq]
    | some value =>
      obtain ⟨target, htarget⟩ : ∃ target : UInt32, target.toNat = first :=
        ⟨UInt32.ofNat first, UInt32.toNat_ofNat_of_lt' (show first < 2 ^ 32 by omega)⟩
      have hexposed := hfits target value (by rw [Snapshot.entryAt, if_pos htarget])
      obtain ⟨written, hwrite, htables, hmemories, hvalues⟩ := h.run_writeGlobal_some hexposed
      rw [htarget] at hwrite
      have hextends : store.Extends written := Within.of_run hwrite
      obtain ⟨next, hrun, htables', hmemories', hvalues'⟩ :=
        ih (h.extends hextends) hlt' hfits'
      refine ⟨next, (Store.run_bind_of_ok hwrite).trans hrun, htables'.trans htables,
        hmemories'.trans hmemories, fun index type hother => ?_⟩
      rw [hvalues' index type hother, hvalues index type hother, Snapshot.entryAt]
      by_cases heq : index = target
      · rw [heq, htarget, if_pos rfl, if_pos rfl,
          Snapshot.entryAt_of_lt (Nat.lt_succ_self first)]
      · rw [if_neg heq, if_neg fun hsame => heq (UInt32.toNat_inj.1 (hsame.trans htarget.symm))]

theorem fits_of_writeGlobals (h : inst.Exposes selection symbol original store)
    {entries : List (Option GlobalValue)} {first : Nat}
    (hrun : store.run ((entries.zipIdx first).forM
      (Restore.writeGlobal symbol (AccessorExports.ofInstance symbol inst))) = (.ok (), next))
    {i : Nat} {entry : Option GlobalValue} (hi : entries[i]? = some entry) :
    first + i + 1 < 2 ^ 32 ∧ ∀ value, entry = some value →
      selection.exposed? original.imports original.globals (UInt32.ofNat (first + i)) =
        some value.intType := by
  induction entries generalizing store first i with
  | nil => cases hi
  | cons head entries ih =>
    obtain ⟨_, written, hwrite, hrest⟩ := Store.run_bind_eq_ok hrun
    cases i with
    | succ i =>
      have hextends : store.Extends written := Within.of_run hwrite
      have hfits := ih (h.extends hextends) hrest (by simpa using hi)
      rwa [Nat.add_assoc first 1 i, Nat.add_comm 1 i] at hfits
    | zero =>
      cases hi
      cases entry with
      | none =>
        rw [Restore.writeGlobal] at hwrite
        split at hwrite
        · cases hwrite
        · next hposition => exact ⟨Nat.lt_of_not_le hposition, fun _ heq => by cases heq⟩
      | some value =>
        obtain ⟨hlt, hexposed⟩ := h.exposed_of_writeGlobal hwrite
        exact ⟨hlt, fun value' heq => by cases heq; exact hexposed⟩

end Instance.Exposes

end WasmSnapshot
