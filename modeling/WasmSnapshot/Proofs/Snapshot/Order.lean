import WasmSnapshot.Proofs.Accessor.Symbols
import WasmSnapshot.Proofs.Snapshot.Writes

/-! What the writes of a restoration do. For each write it is said when it can be done and what the
store is then, or else which error it is refused with. Accessors do not come into this: memories,
tables, globals and functions of the module are looked up in the store. Carrying out the writes of a
snapshot one after another, up to the first that is refused, is all that restoring does. -/

namespace WasmSnapshot

/-- A memory has that many pages, or its type allows them and the host has room for them. -/
def Memory.Admits [Host] (memory : Memory) (pages : Nat) : Prop :=
  memory.pages.size < pages →
    pages ≤ memory.limit ∧ Host.hasPages memory (pages - memory.pages.size) = true

/-- A table has that many slots, or its type allows them and the host has room for them. -/
def Table.Admits [Host] (table : Table) (slots : Nat) : Prop :=
  table.slots.size < slots →
    slots ≤ table.limit ∧ Host.hasSlots table (slots - table.slots.size) = true

/-- A table with null references behind its slots, up to the given length. -/
def Table.lengthen (table : Table) (length : Nat) : Table :=
  { table with slots := table.slots ++ Array.replicate (length - table.slots.size) none }

/-- The accessor that gives a global values of this kind. -/
def GlobalValue.setter (index : UInt32) : GlobalValue → Accessor
  | i32 _ => .i32Setter index
  | i64 _ _ => .i64Setter index

namespace Restore

variable {selection : Selection} {symbol : String} {original : Declarations}
  {inst : Instance} {store after : Store} {write : Write} {writes : List Write} {e : AccessError}

theorem pagesFor_eq (words : Nat) : pagesFor words = pagesOfWords words := by
  simp only [pagesFor, pagesOfWords, pageSize, wordsPerPage]
  omega

/-- A memory is told by what was written over which. -/
theorem overlaid_unique {memory written other : Memory} {words : Array UInt32}
    (h : memory.Overlaid written words) (h' : memory.Overlaid other words)
    (hmax : written.max = other.max) : written = other := by
  apply Memory.ext_byteAt (h.pages.trans h'.pages.symm) hmax
  intro i
  rw [h.byteAt, h'.byteAt]

theorem run_writeSlot_outOfBounds {exports : AccessorExports} {index : UInt32}
    {address function : Address} {table : Table} {position : Nat}
    (htable : store.tables[address]? = some table)
    (hfunction : exports.functions.get? index = some function)
    (hposition : table.slots.size ≤ position) :
    store.run (writeSlot symbol exports address (some index, position)) =
      (.error (.runtime .tableOutOfBounds), store) := by
  simp only [writeSlot, hfunction]
  rw [Access.run_ofRun, Run.setSlot, Store.run_bind_of_ok (Run.run_table htable),
    if_neg (Nat.not_lt_of_le hposition)]
  rfl

/-- A table of other references takes no function. -/
theorem run_writeSlot_refused {exports : AccessorExports} {index : UInt32}
    {address function : Address} {table : Table} {position : Nat}
    (htable : store.tables[address]? = some table)
    (hfunction : exports.functions.get? index = some function)
    (hposition : position < table.slots.size) (hother : table.holdsFunctions = false) :
    store.run (writeSlot symbol exports address (some index, position)) =
      (.error (.runtime .elementTypeMismatch), store) := by
  have hrefuses : ¬ table.accepts (some function) = true := by simp [Table.accepts, hother]
  simp only [writeSlot, hfunction]
  rw [Access.run_ofRun, Run.setSlot, Store.run_bind_of_ok (Run.run_table htable), if_pos hposition,
    if_neg hrefuses]
  rfl

theorem setterFor_fst (index : UInt32) (value : GlobalValue) :
    (setterFor index value).1 = value.setter index := by
  cases value <;> rfl

/-- The setter of a global that is not exposed is missing, and so is one of the other kind. -/
theorem accessor?_setter_eq_none (h : inst.Exposes selection symbol original store) {index : UInt32}
    {value : GlobalValue}
    (hexposed : selection.exposed? original.imports original.globals index ≠ some value.intType) :
    (AccessorExports.ofInstance symbol inst).accessor? (value.setter index) = none := by
  cases hlookup : (AccessorExports.ofInstance symbol inst).accessor? (value.setter index) with
  | none => rfl
  | some address =>
    cases value with
    | i32 value => exact absurd (h.exposed_of_accessor? (IntType.i32Setter_mem index) hlookup) hexposed
    | i64 high low =>
      exact absurd (h.exposed_of_accessor? (IntType.i64Setter_mem index) hlookup) hexposed

variable [Host]

/-- A write can be done, and the store is then `after`. -/
inductive Write.Done (selection : Selection) (original : Declarations) (inst : Instance) :
    Write → Store → Store → Prop where
  | memory {store : Store} {words : Array UInt32} {address : Address} {memory written : Memory}
      (haddress : selection.memory? original inst.scope = some address)
      (hmemory : store.memories[address]? = some memory)
      (hroom : memory.Admits (pagesOfWords words.size))
      (hoverlaid : memory.Overlaid written words) (hmax : written.max = memory.max) :
      Done selection original inst (.memory words) store
        { store with memories := store.memories.setIfInBounds address written }
  | tableSize {store : Store} {slots : Nat} {address : Address} {table : Table}
      (haddress : selection.table? original inst.scope = some address)
      (htable : store.tables[address]? = some table) (hlt : slots < 2 ^ 32)
      (hroom : table.Admits slots) :
      Done selection original inst (.tableSize slots) store
        { store with tables := store.tables.setIfInBounds address (table.lengthen slots) }
  | slot {store : Store} {position : Nat} {index : UInt32} {address function : Address}
      {table : Table} (haddress : selection.table? original inst.scope = some address)
      (htable : store.tables[address]? = some table)
      (hfunction : original.OwnFunction inst.scope index function)
      (hposition : position < table.slots.size) (hholds : table.holdsFunctions = true) :
      Done selection original inst (.slot position index) store
        { store with
          tables := store.tables.setIfInBounds address (table.set position (some function)) }
  | global {store : Store} {index : UInt32} {value : GlobalValue} {address : Address}
      {cell : GlobalCell}
      (hexposed : selection.exposed? original.imports original.globals index = some value.intType)
      (haddress : inst.scope.globals[index.toNat]? = some address)
      (hcell : store.globals[address]? = some cell)
      (hasType : value.toValue.hasType cell.type.value) :
      Done selection original inst (.global index value) store
        { store with
          globals := store.globals.setIfInBounds address ⟨cell.type, value.toValue, hasType⟩ }

/-- A write cannot be done, and that is what is wrong. -/
inductive Write.Refused (selection : Selection) (symbol : String) (original : Declarations)
    (inst : Instance) : Write → Store → AccessError → Prop where
  | memoryNotExported {store : Store} {words : Array UInt32}
      (hnone : selection.memory? original inst.scope = none) :
      Refused selection symbol original inst (.memory words) store
        (.memoryNotExported (symbol ++ "memory"))
  | memoryFull {store : Store} {words : Array UInt32} {address : Address} {memory : Memory}
      (haddress : selection.memory? original inst.scope = some address)
      (hmemory : store.memories[address]? = some memory)
      (hfull : ¬ memory.Admits (pagesOfWords words.size)) :
      Refused selection symbol original inst (.memory words) store
        (.memoryGrowth memory.pages.size (pagesOfWords words.size - memory.pages.size))
  | tableNotExported {store : Store} {write : Write} (hpart : write.part = .table)
      (hnone : selection.table? original inst.scope = none) :
      Refused selection symbol original inst write store (.tableNotExported (symbol ++ "table"))
  | tableTooLong {store : Store} {slots : Nat} {address : Address}
      (haddress : selection.table? original inst.scope = some address) (hle : 2 ^ 32 ≤ slots) :
      Refused selection symbol original inst (.tableSize slots) store (.tableTooLong slots)
  | tableFull {store : Store} {slots : Nat} {address : Address} {table : Table}
      (haddress : selection.table? original inst.scope = some address)
      (htable : store.tables[address]? = some table) (hlt : slots < 2 ^ 32)
      (hfull : ¬ table.Admits slots) :
      Refused selection symbol original inst (.tableSize slots) store
        (.runtime (.tableGrowth (slots - table.slots.size)))
  | unknownFunction {store : Store} {position : Nat} {index : UInt32} {address : Address}
      (haddress : selection.table? original inst.scope = some address)
      (hunknown : ∀ function, ¬ original.OwnFunction inst.scope index function) :
      Refused selection symbol original inst (.slot position index) store
        (.missingExport ((Accessor.function index).exportName symbol))
  | slotOutOfBounds {store : Store} {position : Nat} {index : UInt32} {address function : Address}
      {table : Table} (haddress : selection.table? original inst.scope = some address)
      (htable : store.tables[address]? = some table)
      (hfunction : original.OwnFunction inst.scope index function)
      (hposition : table.slots.size ≤ position) :
      Refused selection symbol original inst (.slot position index) store
        (.runtime .tableOutOfBounds)
  | slotRefused {store : Store} {position : Nat} {index : UInt32} {address function : Address}
      {table : Table} (haddress : selection.table? original inst.scope = some address)
      (htable : store.tables[address]? = some table)
      (hfunction : original.OwnFunction inst.scope index function)
      (hposition : position < table.slots.size) (hother : table.holdsFunctions = false) :
      Refused selection symbol original inst (.slot position index) store
        (.runtime .elementTypeMismatch)
  | noSetter {store : Store} {index : UInt32} {value : GlobalValue}
      (hexposed : selection.exposed? original.imports original.globals index ≠
        some value.intType) :
      Refused selection symbol original inst (.global index value) store
        (.missingExport ((value.setter index).exportName symbol))
  | pastEnd {store : Store} :
      Refused selection symbol original inst .pastEnd store .globalsTooLong

/-- All writes are done, one after another. -/
inductive Performed (selection : Selection) (original : Declarations) (inst : Instance) :
    List Write → Store → Store → Prop where
  | nil {store : Store} : Performed selection original inst [] store store
  | cons {write : Write} {writes : List Write} {before middle after : Store}
      (first : write.Done selection original inst before middle)
      (others : Performed selection original inst writes middle after) :
      Performed selection original inst (write :: writes) before after

/-! ### Room in memories and tables -/

theorem hasRoom_iff {memory : Memory} {words : Array UInt32} :
    HasRoom memory words ↔ memory.Admits (pagesOfWords words.size) := by
  simp only [HasRoom, Memory.Admits, pagesFor_eq]
  refine forall_congr' fun hlt => ?_
  rw [Memory.grow?, Nat.add_sub_cancel' (Nat.le_of_lt hlt)]
  split <;> simp_all

theorem hasSlots_iff {table : Table} {length : Nat} :
    HasSlots table length ↔ table.Admits length := by
  simp only [HasSlots, Table.Admits]
  refine forall_congr' fun hlt => ?_
  rw [Table.grow?, Nat.add_sub_cancel' (Nat.le_of_lt hlt)]
  split <;> simp_all

theorem run_growTable_eq {table : Table} {address : Address} {slots : Nat}
    (htable : store.tables[address]? = some table) (h : HasSlots table slots) :
    store.run (growTable address slots) = (.ok (), { store with
      tables := store.tables.setIfInBounds address (table.lengthen slots) }) := by
  rw [growTable, Store.run_bind_of_ok (Access.run_ofRun_of_ok (Run.run_table htable))]
  by_cases hlt : table.slots.size < slots
  · obtain ⟨grown, hgrown⟩ := Option.isSome_iff_exists.1 (h hlt)
    obtain ⟨rfl, -⟩ := Table.grow?_eq_some hgrown
    rw [if_pos hlt]
    simp only
    rw [hgrown]
    rfl
  · have hsame : table.lengthen slots = table := by
      have hzero : slots - table.slots.size = 0 := by omega
      simp [Table.lengthen, hzero]
    rw [if_neg hlt, hsame, Array.setIfInBounds_of_getElem? htable]
    rfl

theorem run_writeMemory_full {memory : Memory} {address : Address} {words : Array UInt32}
    (hmemory : store.memories[address]? = some memory)
    (hfull : ¬ HasRoom memory words) :
    store.run (writeMemory address words) = (.error
      (.memoryGrowth memory.pages.size (pagesOfWords words.size - memory.pages.size)), store) := by
  obtain ⟨hlt, hnone⟩ := Classical.not_imp.1 hfull
  rw [Option.not_isSome_iff_eq_none] at hnone
  rw [writeMemory, Store.run_bind_of_ok (Access.run_ofRun_of_ok (Run.run_memory hmemory)),
    growMemory, if_pos hlt, hnone, pagesFor_eq]
  rfl

theorem run_growTable_full {table : Table} {address : Address} {slots : Nat}
    (htable : store.tables[address]? = some table) (hfull : ¬ HasSlots table slots) :
    store.run (growTable address slots) =
      (.error (.runtime (.tableGrowth (slots - table.slots.size))), store) := by
  obtain ⟨hlt, hnone⟩ := Classical.not_imp.1 hfull
  rw [Option.not_isSome_iff_eq_none] at hnone
  rw [growTable, Store.run_bind_of_ok (Access.run_ofRun_of_ok (Run.run_table htable)), if_pos hlt]
  simp only
  rw [hnone]
  rfl

/-! ### One write -/

theorem Write.run_global (exports : AccessorExports) {index : UInt32}
    (hlt : index.toNat + 1 < 2 ^ 32) (value : GlobalValue) :
    (Write.global index value).run symbol exports =
      writeGlobal symbol exports (some value, index.toNat) := by
  have hfits : ¬ UInt32.size ≤ index.toNat + 1 := Nat.not_le_of_lt hlt
  rw [writeGlobal, if_neg hfits]
  simp only [UInt32.ofNat_toNat]
  rfl

theorem Write.run_of_done (h : inst.Exposes selection symbol original store)
    (hdone : write.Done selection original inst store after) :
    store.run (write.run symbol (AccessorExports.ofInstance symbol inst)) = (.ok (), after) := by
  cases hdone with
  | memory haddress hmemory hroom hoverlaid hmax =>
    obtain ⟨other, hoverlaid', hmax', hrun⟩ := run_writeMemory hmemory (hasRoom_iff.2 hroom)
    obtain rfl := overlaid_unique hoverlaid hoverlaid' (hmax.trans hmax'.symm)
    rw [Write.run, restoreMemory, h.memory, haddress]
    exact hrun
  | tableSize haddress htable hlt hroom =>
    have hfits : ¬ UInt32.size ≤ _ := Nat.not_le_of_lt hlt
    rw [Write.run, toTable, h.table, haddress]
    simp only [if_neg hfits]
    exact run_growTable_eq htable (hasSlots_iff.2 hroom)
  | slot haddress htable hfunction hposition hholds =>
    rw [Write.run, toTable, h.table, haddress]
    exact run_writeSlot_some symbol htable hholds (h.get?_functions_iff.2 hfunction) hposition
  | global hexposed haddress hcell hasType =>
    obtain ⟨address, cell, hasType', haddress', hcell', hrun⟩ := h.run_writeGlobal_set hexposed
    cases haddress.symm.trans haddress'
    cases hcell.symm.trans hcell'
    rw [Write.run_global _ (h.index_lt hexposed)]
    exact hrun

theorem Write.run_of_refused (h : inst.Exposes selection symbol original store)
    (hrefused : write.Refused selection symbol original inst store e) :
    store.run (write.run symbol (AccessorExports.ofInstance symbol inst)) = (.error e, store) := by
  cases hrefused with
  | memoryNotExported hnone =>
    rw [Write.run, restoreMemory, h.memory, hnone]
    rfl
  | memoryFull haddress hmemory hfull =>
    rw [Write.run, restoreMemory, h.memory, haddress]
    exact run_writeMemory_full hmemory fun hroom => hfull (hasRoom_iff.1 hroom)
  | tableNotExported hpart hnone =>
    cases write with
    | tableSize slots =>
      rw [Write.run, toTable, h.table, hnone]
      rfl
    | slot position index =>
      rw [Write.run, toTable, h.table, hnone]
      rfl
    | memory words => cases hpart
    | global index value => cases hpart
    | pastEnd => cases hpart
  | @tableTooLong _ slots address haddress hle =>
    have hlong : UInt32.size ≤ slots := hle
    rw [Write.run, toTable, h.table, haddress]
    simp only [if_pos hlong]
    rfl
  | @tableFull _ slots address table haddress htable hlt hfull =>
    have hfits : ¬ UInt32.size ≤ slots := Nat.not_le_of_lt hlt
    rw [Write.run, toTable, h.table, haddress]
    simp only [if_neg hfits]
    exact run_growTable_full htable fun hroom => hfull (hasSlots_iff.1 hroom)
  | @unknownFunction _ position index address haddress hunknown =>
    have hnone : (AccessorExports.ofInstance symbol inst).functions.get? index = none :=
      Option.eq_none_iff_forall_ne_some.2 fun function hfunction =>
        hunknown function (h.get?_functions_iff.1 hfunction)
    rw [Write.run, toTable, h.table, haddress]
    simp only [writeSlot, hnone]
    rfl
  | slotOutOfBounds haddress htable hfunction hposition =>
    rw [Write.run, toTable, h.table, haddress]
    exact run_writeSlot_outOfBounds htable (h.get?_functions_iff.2 hfunction) hposition
  | slotRefused haddress htable hfunction hposition hother =>
    rw [Write.run, toTable, h.table, haddress]
    exact run_writeSlot_refused htable (h.get?_functions_iff.2 hfunction) hposition hother
  | noSetter hexposed =>
    simp only [Write.run, setterFor_fst, accessor?_setter_eq_none h hexposed]
    rfl
  | pastEnd => rfl

/-- Each write can be done, or it is refused. -/
theorem Write.done_or_refused (h : inst.Exposes selection symbol original store) (write : Write) :
    (∃ after, write.Done selection original inst store after) ∨
      ∃ e, write.Refused selection symbol original inst store e := by
  cases write with
  | memory words =>
    cases haddress : selection.memory? original inst.scope with
    | none => exact .inr ⟨_, .memoryNotExported haddress⟩
    | some address =>
      obtain ⟨memory, hmemory, -⟩ := h.exposedMemory?_of_found (h.memory.trans haddress)
      by_cases hroom : memory.Admits (pagesOfWords words.size)
      · obtain ⟨written, hoverlaid, hmax, -⟩ := run_writeMemory hmemory (hasRoom_iff.2 hroom)
        exact .inl ⟨_, .memory haddress hmemory hroom hoverlaid hmax⟩
      · exact .inr ⟨_, .memoryFull haddress hmemory hroom⟩
  | tableSize slots =>
    cases haddress : selection.table? original inst.scope with
    | none => exact .inr ⟨_, .tableNotExported rfl haddress⟩
    | some address =>
      obtain ⟨table, htable, -⟩ := h.exposedTable?_of_found (h.table.trans haddress)
      by_cases hlt : slots < 2 ^ 32
      · by_cases hroom : table.Admits slots
        · exact .inl ⟨_, .tableSize haddress htable hlt hroom⟩
        · exact .inr ⟨_, .tableFull haddress htable hlt hroom⟩
      · exact .inr ⟨_, .tableTooLong haddress (Nat.le_of_not_lt hlt)⟩
  | slot position index =>
    cases haddress : selection.table? original inst.scope with
    | none => exact .inr ⟨_, .tableNotExported rfl haddress⟩
    | some address =>
      obtain ⟨table, htable, -⟩ := h.exposedTable?_of_found (h.table.trans haddress)
      by_cases hknown : ∃ function, original.OwnFunction inst.scope index function
      · obtain ⟨function, hfunction⟩ := hknown
        by_cases hposition : position < table.slots.size
        · cases hholds : table.holdsFunctions with
          | true => exact .inl ⟨_, .slot haddress htable hfunction hposition hholds⟩
          | false => exact .inr ⟨_, .slotRefused haddress htable hfunction hposition hholds⟩
        · exact .inr ⟨_, .slotOutOfBounds haddress htable hfunction (Nat.le_of_not_lt hposition)⟩
      · exact .inr ⟨_, .unknownFunction haddress (not_exists.1 hknown)⟩
  | global index value =>
    by_cases hexposed : selection.exposed? original.imports original.globals index =
        some value.intType
    · obtain ⟨address, cell, hasType, haddress, hcell, -⟩ := h.run_writeGlobal_set hexposed
      exact .inl ⟨_, .global hexposed haddress hcell hasType⟩
    · exact .inr ⟨_, .noSetter hexposed⟩
  | pastEnd => exact .inr ⟨_, .pastEnd⟩

theorem Write.run_eq_ok_iff (h : inst.Exposes selection symbol original store) :
    store.run (write.run symbol (AccessorExports.ofInstance symbol inst)) = (.ok (), after) ↔
      write.Done selection original inst store after := by
  constructor
  · intro hrun
    rcases write.done_or_refused h with ⟨other, hdone⟩ | ⟨e, hrefused⟩
    · rw [run_of_done h hdone] at hrun
      cases hrun
      exact hdone
    · rw [run_of_refused h hrefused] at hrun
      cases hrun
  · exact run_of_done h

theorem Write.run_eq_error_iff (h : inst.Exposes selection symbol original store) :
    store.run (write.run symbol (AccessorExports.ofInstance symbol inst)) = (.error e, after) ↔
      write.Refused selection symbol original inst store e ∧ after = store := by
  constructor
  · intro hrun
    rcases write.done_or_refused h with ⟨other, hdone⟩ | ⟨e', hrefused⟩
    · rw [run_of_done h hdone] at hrun
      cases hrun
    · rw [run_of_refused h hrefused] at hrun
      cases hrun
      exact ⟨hrefused, rfl⟩
  · rintro ⟨hrefused, rfl⟩
    exact run_of_refused h hrefused

/-! ### All writes -/

instance (exports : AccessorExports) (write : Write) :
    Within Store.Extends (write.run symbol exports) := by
  have htable (f : Address → Access Unit) [∀ address, Within Store.Extends (f address)] :
      Within Store.Extends (Write.toTable symbol exports f) := by
    unfold Write.toTable
    split <;> infer_instance
  cases write with
  | memory words => exact inferInstanceAs (Within _ (restoreMemory symbol exports (some words)))
  | tableSize slots =>
    apply htable
  | slot position index =>
    apply htable
  | global index value =>
    simp only [Write.run]
    split <;> infer_instance
  | pastEnd => exact inferInstanceAs (Within _ (throw _))

theorem performed_iff (h : inst.Exposes selection symbol original store) :
    store.run (writes.forM (Write.run symbol (AccessorExports.ofInstance symbol inst))) =
      (.ok (), after) ↔ Performed selection original inst writes store after := by
  induction writes generalizing store with
  | nil =>
    constructor
    · intro hrun
      cases hrun
      exact .nil
    · intro hperformed
      cases hperformed
      rfl
  | cons write writes ih =>
    constructor
    · intro hrun
      obtain ⟨⟨⟩, middle, hfirst, hothers⟩ := Store.run_bind_eq_ok hrun
      have hextends : store.Extends middle := Within.of_run hfirst
      have hexposes := h.extends hextends
      exact .cons ((Write.run_eq_ok_iff h).1 hfirst) ((ih hexposes).1 hothers)
    · intro hperformed
      cases hperformed with
      | cons first others =>
        have hfirst := (Write.run_eq_ok_iff h).2 first
        have hextends : store.Extends _ := Within.of_run hfirst
        rw [Store.run_forM_cons_of_ok hfirst]
        exact (ih (h.extends hextends)).2 others

/-- Writes fail at the first one that is refused, and that one changes nothing. -/
theorem failed_iff (h : inst.Exposes selection symbol original store) :
    store.run (writes.forM (Write.run symbol (AccessorExports.ofInstance symbol inst))) =
      (.error e, after) ↔ ∃ done write rest, writes = done ++ write :: rest ∧
        Performed selection original inst done store after ∧
        write.Refused selection symbol original inst after e := by
  rw [Store.run_forM_eq_error]
  constructor
  · rintro ⟨done, write, rest, middle, hwrites, hdone, hwrite⟩
    have hextends : store.Extends middle := Within.of_run hdone
    obtain ⟨hrefused, rfl⟩ := (Write.run_eq_error_iff (h.extends hextends)).1 hwrite
    exact ⟨done, write, rest, hwrites, (performed_iff h).1 hdone, hrefused⟩
  · rintro ⟨done, write, rest, hwrites, hdone, hrefused⟩
    have hrun := (performed_iff h).2 hdone
    have hextends : store.Extends after := Within.of_run hrun
    have hexposes := h.extends hextends
    exact ⟨done, write, rest, after, hwrites, hrun, Write.run_of_refused hexposes hrefused⟩

end Restore

/-- Restoring is an ordered list of writes with early exit, for every snapshot and every state of the
instance. It succeeds if and only if all writes can be done. Else it ends with the error of the first
one that cannot, and the store is the one that the writes before it make. The symbol of the snapshot
need not be the one of the accessors. -/
theorem restore_in_order [Host] {selection : Selection} {symbol : String} {bytes : Bytes}
    {sections : List Section} {original m : Declarations} {inst : Instance} {store : Store}
    {snapshot : Snapshot} (h : Prepared selection symbol bytes sections original m)
    (hnames : ∀ e ∈ original.exports, Accessor.ofExportName? snapshot.symbol e.name = none)
    (hof : inst.Of m store) :
    (∀ after, store.run (snapshot.restore inst) = (.ok (), after) ↔
      Restore.Performed selection (original.seenUnder symbol snapshot.symbol) inst snapshot.writes
        store after) ∧
    ∀ e after, store.run (snapshot.restore inst) = (.error e, after) ↔ ∃ done write rest,
      snapshot.writes = done ++ write :: rest ∧
      Restore.Performed selection (original.seenUnder symbol snapshot.symbol) inst done
        store after ∧
      write.Refused selection snapshot.symbol (original.seenUnder symbol snapshot.symbol) inst
        after e := by
  have hexposes := h.exposes_under hnames hof
  rw [snapshot.restore_eq]
  constructor
  · intro after
    exact Restore.performed_iff hexposes
  · intro e after
    exact Restore.failed_iff hexposes

/-- A snapshot that fails at a function which the sample module does not have. The memory and the
first slot have been written by then. -/
def unknownFunctionSnapshot : Snapshot where
  memory := some #[7]
  table := [some 1, some 9]
  symbol := "_"

theorem fails_unknownFunction : ∃ (declared : Declarations) (inst : Instance)
    (store after : Store),
    Prepared .all "_" (Section.encodeModule sampleSections) sampleSections sampleDeclarations
      declared ∧
    inst.Of declared store ∧
    store.run (unknownFunctionSnapshot.restore inst) =
      (.error (.missingExport "_func_9"), after) := by
  obtain ⟨declared, inst, made, hprepared, hof, hfails⟩ := exists_sample
    (p := fun inst made => decide ((made.run (unknownFunctionSnapshot.restore inst)).1 =
      .error (.missingExport "_func_9"))) (by decide +kernel)
  exact ⟨declared, inst, made, _, hprepared, hof, Prod.ext (of_decide_eq_true hfails) rfl⟩

theorem restore_in_order_unknownFunction : ∃ (declared : Declarations) (inst : Instance)
    (store after : Store) (done : List Restore.Write) (write : Restore.Write)
    (rest : List Restore.Write),
    Prepared .all "_" (Section.encodeModule sampleSections) sampleSections sampleDeclarations
      declared ∧
    (∀ e ∈ sampleDeclarations.exports, Accessor.ofExportName? "_" e.name = none) ∧
    inst.Of declared store ∧
    store.run (unknownFunctionSnapshot.restore inst) =
      (.error (.missingExport "_func_9"), after) ∧
    unknownFunctionSnapshot.writes = done ++ write :: rest ∧
    Restore.Performed .all (sampleDeclarations.seenUnder "_" "_") inst done store after ∧
    write.Refused .all "_" (sampleDeclarations.seenUnder "_" "_") inst after
      (.missingExport "_func_9") := by
  obtain ⟨declared, inst, store, after, hprepared, hof, hrun⟩ := fails_unknownFunction
  obtain ⟨done, write, rest, hwrites, hdone, hrefused⟩ :=
    ((@restore_in_order _ _ _ _ _ _ _ _ _ unknownFunctionSnapshot hprepared hprepared.names
      hof).2 _ _).1 hrun
  exact ⟨declared, inst, store, after, done, write, rest, hprepared, hprepared.names, hof,
    hrun, hwrites, hdone, hrefused⟩

/-- A module with a function and a table of references that are no functions. -/
def externTableSections : List Section := [
  ⟨1, [1, 0x60, 0, 0]⟩,
  ⟨3, [1, 0]⟩,
  ⟨4, [1, 0x6f, 0, 1]⟩,
  ⟨10, [1, 2, 0, 0x0b]⟩]

-- The slot is there, and so is the function, but the table does not take it.
example : ((instrument .all "_" (Section.encodeModule externTableSections)).toOption.bind fun out =>
    (Module.compile? out.bytes).map fun m =>
      match Store.run {} (Instance.ofModule m fun _ _ => none) with
      | (.ok inst, made) => (made.run (Snapshot.restore { table := [some 0], symbol := "_" } inst)).1
      | (.error e, _) => .error (.runtime e)) = some (.error (.runtime .elementTypeMismatch)) := by
  decide +kernel

end WasmSnapshot
