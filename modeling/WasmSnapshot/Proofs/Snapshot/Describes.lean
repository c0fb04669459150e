import WasmSnapshot.Proofs.Accessor.Exposed
import WasmSnapshot.Proofs.Accessor.Function
import WasmSnapshot.Proofs.Host.Memory
import WasmSnapshot.Proofs.Snapshot.Lists

/-! What a snapshot is to say of an instance. The state is looked up in the store, and the functions of
the module by their addresses; neither accessors nor names of exports come into it. There is one
snapshot for each state. -/

namespace WasmSnapshot

namespace Instance

/-- The memory of an instance that is exposed. -/
def exposedMemory? (inst : Instance) (selection : Selection) (original : Declarations)
    (store : Store) : Option Memory :=
  (selection.memory? original inst.scope).bind fun address => store.memories[address]?

/-- The table of an instance that is exposed. -/
def exposedTable? (inst : Instance) (selection : Selection) (original : Declarations)
    (store : Store) : Option Table :=
  (selection.table? original inst.scope).bind fun address => store.tables[address]?

/-- The present value of a global of an instance. -/
def value? (inst : Instance) (store : Store) (index : UInt32) : Option Value := do
  let address ← inst.scope.globals[index.toNat]?
  let cell ← store.globals[address]?
  pure cell.value

/-- The present value of a global of an instance as a snapshot records it, if it is exposed. -/
def recorded? (inst : Instance) (selection : Selection) (original : Declarations) (store : Store)
    (index : UInt32) : Option GlobalValue := do
  let _type ← selection.exposed? original.imports original.globals index
  (← inst.value? store index).global?

end Instance

/-- The snapshot says what there is to say of the state of an instance. -/
structure Snapshot.Describes (snapshot : Snapshot) (selection : Selection) (symbol : String)
    (original : Declarations) (inst : Instance) (store : Store) : Prop where
  symbol : snapshot.symbol = symbol
  /-- The memory of the snapshot is that of the instance, word by word. -/
  memory : selection.exposesMemory original = true → ∃ memory words,
    inst.exposedMemory? selection original store = some memory ∧
    snapshot.memory = some words ∧ memory.HasWords words
  no_memory : selection.exposesMemory original = false → snapshot.memory = none
  /-- There is an entry for each slot. It tells which function of the module the slot holds. -/
  table : selection.exposesTable original = true → ∃ table,
    inst.exposedTable? selection original store = some table ∧
    snapshot.table.length = table.slots.size ∧
    ∀ (i : Nat) (index : UInt32), snapshot.table[i]? = some (some index) ↔ ∃ address,
      table.function? i = some address ∧ original.OwnFunction inst.scope index address
  no_table : selection.exposesTable original = false → snapshot.table = []
  /-- The globals end at the last one that is exposed. -/
  length_globals (i : Nat) : i < snapshot.globals.length ↔ ∃ index, i ≤ index.toNat ∧
    (selection.exposed? original.imports original.globals index).isSome = true
  i32Global {index : UInt32} :
    selection.exposed? original.imports original.globals index = some .i32 → ∃ bits,
      inst.value? store index = some (.i32 bits) ∧
      snapshot.global? index = some (.i32 bits.toInt32)
  i64Global {index : UInt32} :
    selection.exposed? original.imports original.globals index = some .i64 → ∃ bits,
      inst.value? store index = some (.i64 bits) ∧
      snapshot.global? index =
        some (.i64 (bits >>> 32).toUInt32.toInt32 bits.toUInt32.toInt32)
  unexposed {index : UInt32} :
    selection.exposed? original.imports original.globals index = none →
    snapshot.global? index = none

variable {selection : Selection} {symbol : String} {original : Declarations} {inst : Instance}
  {store : Store} {snapshot other : Snapshot}

namespace Snapshot.Describes

theorem lists (h : snapshot.Describes selection symbol original inst store) :
    Snapshot.Lists snapshot.globals (inst.recorded? selection original store) := by
  have hrecorded (index : UInt32) :
      inst.recorded? selection original store index = snapshot.global? index ∧
      (inst.recorded? selection original store index).isSome =
        (selection.exposed? original.imports original.globals index).isSome := by
    rw [Instance.recorded?]
    cases hexposed : selection.exposed? original.imports original.globals index with
    | none => exact ⟨(h.unexposed hexposed).symm, rfl⟩
    | some type =>
      cases type with
      | i32 =>
        obtain ⟨bits, hvalue, hglobal⟩ := h.i32Global hexposed
        rw [hvalue, hglobal]
        exact ⟨rfl, rfl⟩
      | i64 =>
        obtain ⟨bits, hvalue, hglobal⟩ := h.i64Global hexposed
        rw [hvalue, hglobal]
        exact ⟨rfl, rfl⟩
  exact {
    getElem? := fun index => (hrecorded index).1.symm
    lt_length_iff := fun i => (h.length_globals i).trans
      (exists_congr fun index => by rw [(hrecorded index).2]) }

theorem memory_eq (h : snapshot.Describes selection symbol original inst store)
    (h' : other.Describes selection symbol original inst store) :
    snapshot.memory = other.memory := by
  cases hmemory : selection.exposesMemory original with
  | false => rw [h.no_memory hmemory, h'.no_memory hmemory]
  | true =>
    obtain ⟨memory, words, hexposed, hwords, hhas⟩ := h.memory hmemory
    obtain ⟨memory', words', hexposed', hwords', hhas'⟩ := h'.memory hmemory
    rw [hexposed] at hexposed'
    cases hexposed'
    rw [hwords, hwords', hhas.unique hhas']

theorem table_eq (h : snapshot.Describes selection symbol original inst store)
    (h' : other.Describes selection symbol original inst store) : snapshot.table = other.table := by
  cases htable : selection.exposesTable original with
  | false => rw [h.no_table htable, h'.no_table htable]
  | true =>
    obtain ⟨table, hexposed, hlength, hentries⟩ := h.table htable
    obtain ⟨table', hexposed', hlength', hentries'⟩ := h'.table htable
    rw [hexposed] at hexposed'
    cases hexposed'
    refine List.ext_getElem (hlength.trans hlength'.symm) fun i hi hi' => Option.ext fun index => ?_
    have hentry := (hentries i index).trans (hentries' i index).symm
    rwa [List.getElem?_eq_getElem hi, List.getElem?_eq_getElem hi', Option.some.injEq,
      Option.some.injEq] at hentry

/-- A state has one description. -/
theorem unique (h : snapshot.Describes selection symbol original inst store)
    (h' : other.Describes selection symbol original inst store) : snapshot = other := by
  have hmemory := h.memory_eq h'
  have htable := h.table_eq h'
  have hglobals := h.lists.unique h'.lists
  have hsymbol := h.symbol.trans h'.symbol.symm
  cases snapshot
  cases other
  cases hmemory
  cases htable
  cases hglobals
  cases hsymbol
  rfl

end Snapshot.Describes

theorem Instance.value?_eq_some {index : UInt32} {address : Address} {cell : GlobalCell}
    (haddress : inst.scope.globals[index.toNat]? = some address)
    (hcell : store.globals[address]? = some cell) : inst.value? store index = some cell.value := by
  rw [value?, haddress, Option.bind_eq_bind, Option.bind_some, hcell]
  rfl

theorem Instance.exposesTable_of_exposedTable? {table : Table}
    (h : inst.exposedTable? selection original store = some table) :
    selection.exposesTable original = true := by
  obtain ⟨address, haddress, -⟩ := Option.bind_eq_some_iff.1 h
  rw [Selection.table?] at haddress
  split at haddress
  · next hexposes => exact hexposes
  · cases haddress

/-- A global of type `i32` holds a word. -/
theorem GlobalCell.of_i32 (cell : GlobalCell)
    (h : IntType.ofValueType? cell.type.value = some .i32) :
    cell.type.value = .i32 ∧ ∃ bits, cell.value = .i32 bits := by
  have hasType := cell.hasType
  cases htype : cell.type.value with
  | i32 =>
    rw [htype] at hasType
    cases hvalue : cell.value with
    | i32 bits => exact ⟨rfl, bits, rfl⟩
    | i64 | f32 | f64 | v128 | ref => rw [hvalue] at hasType; cases hasType
  | i64 | f32 | f64 | v128 | ref => rw [htype] at h; cases h

/-- A global of type `i64` holds a double word. -/
theorem GlobalCell.of_i64 (cell : GlobalCell)
    (h : IntType.ofValueType? cell.type.value = some .i64) :
    cell.type.value = .i64 ∧ ∃ bits, cell.value = .i64 bits := by
  have hasType := cell.hasType
  cases htype : cell.type.value with
  | i64 =>
    rw [htype] at hasType
    cases hvalue : cell.value with
    | i64 bits => exact ⟨rfl, bits, rfl⟩
    | i32 | f32 | f64 | v128 | ref => rw [hvalue] at hasType; cases hasType
  | i32 | f32 | f64 | v128 | ref => rw [htype] at h; cases h

/-- The type of the globals that a value is recorded of. -/
def GlobalValue.intType : GlobalValue → IntType
  | i32 _ => .i32
  | i64 _ _ => .i64

namespace Instance.Exposes

variable (h : inst.Exposes selection symbol original store)

include h

theorem exposedMemory (hexposes : selection.exposesMemory original = true) : ∃ address memory,
    selection.memory? original inst.scope = some address ∧
    store.memories[address]? = some memory ∧
    inst.exposedMemory? selection original store = some memory := by
  obtain ⟨address, memory, haddress, hmemory⟩ := h.memory_found hexposes
  exact ⟨address, memory, haddress, hmemory, by rw [exposedMemory?, haddress]; exact hmemory⟩

theorem exposedTable (hexposes : selection.exposesTable original = true) : ∃ address table,
    selection.table? original inst.scope = some address ∧
    store.tables[address]? = some table ∧
    inst.exposedTable? selection original store = some table := by
  obtain ⟨address, table, haddress, htable, -⟩ := h.table_found hexposes
  exact ⟨address, table, haddress, htable, by rw [exposedTable?, haddress]; exact htable⟩

/-- The exposed table is of the type that the module declares, and not too long. -/
theorem typed_exposedTable {table : Table}
    (hexposed : inst.exposedTable? selection original store = some table) :
    original.tables.head?.map (·.element) = some table.element ∧
      table.slots.size ≤ TableType.maxSlots := by
  obtain ⟨address, found, haddress, hfound, htyped⟩ :=
    h.table_found (exposesTable_of_exposedTable? hexposed)
  rw [exposedTable?, haddress, Option.bind_some, hfound] at hexposed
  cases hexposed
  exact htyped

theorem i32Global {index : UInt32}
    (hexposed : selection.exposed? original.imports original.globals index = some .i32) :
    ∃ address cell bits, inst.scope.globals[index.toNat]? = some address ∧
      store.globals[address]? = some cell ∧ cell.type.value = .i32 ∧ cell.value = .i32 bits ∧
      inst.recorded? selection original store index = some (.i32 bits.toInt32) := by
  obtain ⟨address, cell, haddress, hcell, htype⟩ := h.global_found hexposed
  obtain ⟨htype, bits, hvalue⟩ := cell.of_i32 htype
  refine ⟨address, cell, bits, haddress, hcell, htype, hvalue, ?_⟩
  rw [recorded?, hexposed, value?_eq_some haddress hcell, hvalue]
  rfl

theorem i64Global {index : UInt32}
    (hexposed : selection.exposed? original.imports original.globals index = some .i64) :
    ∃ address cell bits, inst.scope.globals[index.toNat]? = some address ∧
      store.globals[address]? = some cell ∧ cell.type.value = .i64 ∧ cell.value = .i64 bits ∧
      inst.recorded? selection original store index =
        some (.i64 (bits >>> 32).toUInt32.toInt32 bits.toUInt32.toInt32) := by
  obtain ⟨address, cell, haddress, hcell, htype⟩ := h.global_found hexposed
  obtain ⟨htype, bits, hvalue⟩ := cell.of_i64 htype
  refine ⟨address, cell, bits, haddress, hcell, htype, hvalue, ?_⟩
  rw [recorded?, hexposed, value?_eq_some haddress hcell, hvalue]
  rfl

/-- A value is recorded of each exposed global. -/
theorem isSome_recorded? (index : UInt32) :
    (inst.recorded? selection original store index).isSome =
      (selection.exposed? original.imports original.globals index).isSome := by
  cases hexposed : selection.exposed? original.imports original.globals index with
  | none => rw [recorded?, hexposed]; rfl
  | some type =>
    cases type with
    | i32 =>
      obtain ⟨_, _, _, -, -, -, -, hrecorded⟩ := h.i32Global hexposed
      rw [hrecorded]
      rfl
    | i64 =>
      obtain ⟨_, _, _, -, -, -, -, hrecorded⟩ := h.i64Global hexposed
      rw [hrecorded]
      rfl

/-- Values are recorded of exposed globals of their type. -/
theorem exposed_of_recorded {index : UInt32} {value : GlobalValue}
    (hrecorded : inst.recorded? selection original store index = some value) :
    selection.exposed? original.imports original.globals index = some value.intType := by
  cases hexposed : selection.exposed? original.imports original.globals index with
  | none =>
    rw [recorded?, hexposed] at hrecorded
    cases hrecorded
  | some type =>
    cases type with
    | i32 =>
      obtain ⟨_, _, _, -, -, -, -, hvalue⟩ := h.i32Global hexposed
      rw [hrecorded] at hvalue
      cases hvalue
      rfl
    | i64 =>
      obtain ⟨_, _, _, -, -, -, -, hvalue⟩ := h.i64Global hexposed
      rw [hrecorded] at hvalue
      cases hvalue
      rfl

/-- Under the name of an accessor function stands its code, and the global is exposed. -/
theorem found {function : AccessorFunction} {type : IntType} {index : UInt32} {address : Address}
    (hfunction : function ∈ type.accessorFunctions index)
    (hmem : (function.accessor, address) ∈ (AccessorExports.ofInstance symbol inst).globals) :
    selection.exposed? original.imports original.globals index = some type ∧
      store.functions[address]? =
        some (.code function.signature.type inst.scope function.code) := by
  obtain ⟨index', type', function', hexposed, hfunction', haccessor, hcode⟩ := h.sound hmem
  obtain ⟨rfl, rfl, rfl⟩ := IntType.eq_of_accessor hfunction' hfunction haccessor
  exact ⟨hexposed, hcode⟩

end Instance.Exposes

end WasmSnapshot
