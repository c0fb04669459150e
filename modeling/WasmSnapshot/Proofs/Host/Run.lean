import Mathlib.Algebra.GroupWithZero.Nat
import WasmSnapshot.Snapshot.Error

/-! Running computations on a store, and what no computation of a host undoes: a store only grows.
Functions stay what they are, tables and memories stay where they are and get no shorter, and a
global keeps its type. -/

namespace WasmSnapshot

variable {ε α β : Type}

/-- The outcome of a computation, and the store that it leaves. -/
def Store.run (store : Store) (x : ExceptT ε (StateM Store) α) : Except ε α × Store :=
  x.run.run store

namespace Table

variable {table changed grown : Table} {added : Nat} {filling : Option Address}

theorem Extends.of_size_eq (helement : changed.element = table.element)
    (hsize : changed.slots.size = table.slots.size) : table.Extends changed :=
  ⟨helement, Nat.le_of_eq hsize.symm, hsize ▸ id⟩

theorem Extends.trans {first second third : Table} (h1 : first.Extends second)
    (h2 : second.Extends third) : first.Extends third :=
  ⟨h2.element_eq.trans h1.element_eq, Nat.le_trans h1.size_le h2.size_le,
    h2.le_maxSlots ∘ h1.le_maxSlots⟩

theorem function?_eq_some_iff {i : Nat} {function : Address} :
    table.function? i = some function ↔
      table.holdsFunctions = true ∧ table.slots[i]? = some (some function) := by
  unfold function?
  split
  · next hfunctions => simp [hfunctions, Option.join_eq_some_iff]
  · next hother => simp [hother]

theorem lt_of_function? {i : Nat} {function : Address} (h : table.function? i = some function) :
    i < table.slots.size :=
  (Array.getElem?_eq_some_iff.1 (function?_eq_some_iff.1 h).2).1

@[simp] theorem length_functions (table : Table) : table.functions.length = table.slots.size := by
  simp [functions]

theorem getElem?_functions {i : Nat} {slot : Option Address} :
    table.functions[i]? = some slot ↔ i < table.slots.size ∧ table.function? i = slot := by
  rw [functions, List.getElem?_map, Option.map_eq_some_iff]
  by_cases hi : i < table.slots.size <;> simp [hi]

theorem Extends.holdsFunctions_eq (h : table.Extends changed) :
    changed.holdsFunctions = table.holdsFunctions := by
  rw [holdsFunctions, holdsFunctions, h.element_eq]

variable [Host]

theorem grow?_eq_some (h : table.grow? added filling = some grown) :
    grown = { table with slots := table.slots ++ Array.replicate added filling } ∧
      table.slots.size + added ≤ table.limit := by
  unfold grow? at h
  split at h
  · next hroom =>
    cases h
    exact ⟨rfl, by simpa using (Bool.and_eq_true_iff.1 hroom).1⟩
  · cases h

theorem size_of_grow? (h : table.grow? added filling = some grown) :
    grown.slots.size = table.slots.size + added ∧ grown.slots.size ≤ TableType.maxSlots := by
  obtain ⟨rfl, hle⟩ := grow?_eq_some h
  rw [Array.size_append, Array.size_replicate]
  unfold limit at hle
  omega

theorem extends_of_grow? (h : table.grow? added filling = some grown) : table.Extends grown := by
  obtain ⟨hsize, hmax⟩ := size_of_grow? h
  obtain ⟨rfl, -⟩ := grow?_eq_some h
  exact ⟨rfl, by omega, fun _ => hmax⟩

end Table

namespace Store

variable {x : ExceptT ε (StateM Store) α} {f : α → ExceptT ε (StateM Store) β}
  {store next after : Store} {a : α} {b : β}

theorem run_bind : store.run (x >>= f) =
    match store.run x with
    | (.ok a, next) => next.run (f a)
    | (.error e, next) => (.error e, next) := by
  show ExceptT.bindCont f (store.run x).1 (store.run x).2 = _
  rcases store.run x with ⟨outcome, next⟩
  cases outcome <;> rfl

theorem run_bind_of_ok (h : store.run x = (.ok a, next)) :
    store.run (x >>= f) = next.run (f a) := by
  rw [run_bind, h]

/-- A computation of two parts that comes to its end. -/
theorem run_bind_eq_ok (h : store.run (x >>= f) = (.ok b, after)) :
    ∃ a next, store.run x = (.ok a, next) ∧ next.run (f a) = (.ok b, after) := by
  rw [run_bind] at h
  split at h
  · next a next hx => exact ⟨a, next, hx, h⟩
  · cases h

/-- A computation of two parts that fails in one of them. -/
theorem run_bind_eq_error {e : ε} (h : store.run (x >>= f) = (.error e, after)) :
    store.run x = (.error e, after) ∨
      ∃ a next, store.run x = (.ok a, next) ∧ next.run (f a) = (.error e, after) := by
  rw [run_bind] at h
  split at h
  · next a next hx => exact .inr ⟨a, next, hx, h⟩
  · next e' next hx =>
    cases h
    exact .inl hx

/-- A loop none of whose steps changes anything. -/
theorem run_forM_of_unchanged {list : List β} {f : β → ExceptT ε (StateM Store) Unit}
    (h : ∀ b ∈ list, store.run (f b) = (.ok (), store)) :
    store.run (list.forM f) = (.ok (), store) := by
  induction list with
  | nil => rfl
  | cons b list ih =>
    have hlist := ih fun b' hb' => h b' (List.mem_cons_of_mem b hb')
    exact (run_bind_of_ok (h b List.mem_cons_self)).trans hlist

theorem run_get : store.run (get : ExceptT ε (StateM Store) Store) = (.ok store, store) := rfl

theorem run_modify (g : Store → Store) :
    store.run (modify g : ExceptT ε (StateM Store) Unit) = (.ok (), g store) := rfl

/-- The second store has just as many items as the first one, and has all that it has. -/
structure Updates (before after : Store) : Prop extends Extends before after where
  functions_size : after.functions.size = before.functions.size
  tables_size : after.tables.size = before.tables.size
  memories_size : after.memories.size = before.memories.size
  globals_size : after.globals.size = before.globals.size

theorem Extends.trans {first second third : Store} (h1 : Extends first second)
    (h2 : Extends second third) : Extends first third where
  functions h := h2.functions (h1.functions h)
  tables h := by
    obtain ⟨table, htable, hextends⟩ := h1.tables h
    obtain ⟨table', htable', hextends'⟩ := h2.tables htable
    exact ⟨table', htable', hextends.trans hextends'⟩
  memories h := by
    obtain ⟨memory, hmemory, hle⟩ := h1.memories h
    obtain ⟨memory', hmemory', hle'⟩ := h2.memories hmemory
    exact ⟨memory', hmemory', Nat.le_trans hle hle'⟩
  globals h := by
    obtain ⟨cell, hcell, htype⟩ := h1.globals h
    obtain ⟨cell', hcell', htype'⟩ := h2.globals hcell
    exact ⟨cell', hcell', htype'.trans htype⟩

theorem Updates.refl (store : Store) : Updates store store :=
  ⟨Extends.refl store, rfl, rfl, rfl, rfl⟩

theorem Updates.trans {first second third : Store} (h1 : Updates first second)
    (h2 : Updates second third) : Updates first third :=
  ⟨h1.toExtends.trans h2.toExtends, h2.functions_size.trans h1.functions_size,
    h2.tables_size.trans h1.tables_size, h2.memories_size.trans h1.memories_size,
    h2.globals_size.trans h1.globals_size⟩

end Store

/-- A relation that computations may keep to step by step. -/
class StoreOrder (R : Store → Store → Prop) : Prop where
  refl (store : Store) : R store store
  trans {first second third : Store} : R first second → R second third → R first third

instance : StoreOrder Eq := ⟨fun _ => rfl, Eq.trans⟩

instance : StoreOrder Store.Updates := ⟨Store.Updates.refl, Store.Updates.trans⟩

instance : StoreOrder Store.Extends := ⟨Store.Extends.refl, Store.Extends.trans⟩

/-- A part of the store has as many items as before. -/
def Store.SameSize (size : Store → Nat) (before after : Store) : Prop := size after = size before

instance (size : Store → Nat) : StoreOrder (Store.SameSize size) :=
  ⟨fun _ => rfl, fun h1 h2 => Eq.trans h2 h1⟩

/-- Whatever comes of the computation, the store that it finds stands in the relation to the one
that it leaves. -/
class Within (R : Store → Store → Prop) (x : ExceptT ε (StateM Store) α) : Prop where
  out (store : Store) : R store (store.run x).2

section Within

variable {R : Store → Store → Prop} {x : ExceptT ε (StateM Store) α}
  {f : α → ExceptT ε (StateM Store) β}

theorem Within.of_run [Within R x] {store next : Store} {outcome : Except ε α}
    (h : store.run x = (outcome, next)) : R store next := by
  have hx : R store (store.run x).2 := Within.out store
  rwa [h] at hx

variable [StoreOrder R]

instance (a : α) : Within R (pure a : ExceptT ε (StateM Store) α) := ⟨StoreOrder.refl⟩

instance (e : ε) : Within R (throw e : ExceptT ε (StateM Store) α) := ⟨StoreOrder.refl⟩

instance : Within R (get : ExceptT ε (StateM Store) Store) := ⟨StoreOrder.refl⟩

theorem Within.bind (hx : Within R x) (hf : ∀ a, Within R (f a)) : Within R (x >>= f) where
  out store := by
    rw [Store.run_bind]
    split
    · next a next h => exact StoreOrder.trans (Within.of_run h) (Within.out next)
    · next e next h => exact Within.of_run h

instance [Within R x] [∀ a, Within R (f a)] : Within R (x >>= f) := Within.bind ‹_› ‹_›

instance (g : α → β) [Within R x] : Within R (g <$> x) := by
  rw [map_eq_pure_bind]
  infer_instance

instance (p : Prop) [Decidable p] (y : ExceptT ε (StateM Store) α) [Within R x] [Within R y] :
    Within R (if p then x else y) := by
  split <;> infer_instance

instance (f : α → ExceptT ε (StateM Store) β) [∀ a, Within R (f a)] (list : List α) :
    Within R (list.mapM f) := by
  induction list with
  | nil => rw [List.mapM_nil]; infer_instance
  | cons a list ih => rw [List.mapM_cons]; infer_instance

instance (f : α → ExceptT ε (StateM Store) PUnit) [∀ a, Within R (f a)] (list : List α) :
    Within R (list.forM f) := by
  induction list with
  | nil => exact inferInstanceAs (Within R (pure PUnit.unit))
  | cons a list ih => exact inferInstanceAs (Within R (f a >>= fun _ => list.forM f))

instance (f : β → α → ExceptT ε (StateM Store) β) [∀ b a, Within R (f b a)] (list : List α)
    (b : β) : Within R (list.foldlM f b) := by
  induction list generalizing b with
  | nil => rw [List.foldlM_nil]; infer_instance
  | cons a list ih => rw [List.foldlM_cons]; infer_instance

/-- What leaves the store as it is keeps to any relation. -/
instance (priority := low) [Within Eq x] : Within R x where
  out store := by
    have h : store = (store.run x).2 := Within.out store
    rw [← h]
    exact StoreOrder.refl store

instance (priority := low) [Within Store.Updates x] : Within Store.Extends x where
  out store := (Within.out store : store.Updates (store.run x).2).toExtends

end Within

/-! ### Changes of a store -/

theorem Array.modify_eq_setIfInBounds {γ : Type} {values : Array γ} {i : Nat} {v : γ}
    {f : γ → γ} (h : values[i]? = some v) : values.modify i f = values.setIfInBounds i (f v) := by
  refine Array.ext_getElem? fun j => ?_
  rw [Array.getElem?_modify, Array.getElem?_setIfInBounds]
  obtain ⟨hlt, -⟩ := Array.getElem?_eq_some_iff.1 h
  by_cases hij : i = j
  · subst hij
    rw [if_pos rfl, if_pos rfl, if_pos hlt, h]
    rfl
  · rw [if_neg hij, if_neg hij]

theorem Array.setIfInBounds_of_getElem? {γ : Type} {values : Array γ} {i : Nat} {v : γ}
    (h : values[i]? = some v) : values.setIfInBounds i v = values := by
  refine Array.ext_getElem? fun j => ?_
  rw [Array.getElem?_setIfInBounds]
  obtain ⟨hlt, -⟩ := Array.getElem?_eq_some_iff.1 h
  by_cases hij : i = j
  · subst hij
    rw [if_pos rfl, if_pos hlt, h]
  · rw [if_neg hij]

/-- A global that is given its own value stays as it is. -/
theorem GlobalCell.setIfInBounds_self {store : Store} {address : Address} {cell : GlobalCell}
    (hcell : store.globals[address]? = some cell) {value : Value}
    (hvalue : cell.value = value) (hasType : value.hasType cell.type.value) :
    store.globals.setIfInBounds address ⟨cell.type, value, hasType⟩ = store.globals := by
  subst hvalue
  exact Array.setIfInBounds_of_getElem? hcell

/-- A slot that is given the function that it holds stays as it is. -/
theorem Table.set_of_getElem? {table : Table} {slot : Nat} {value : Option Address}
    (h : table.slots[slot]? = some value) : table.set slot value = table := by
  rw [set, Array.setIfInBounds_of_getElem? h]

theorem Table.size_set (table : Table) (slot : Nat) (value : Option Address) :
    (table.set slot value).slots.size = table.slots.size := by
  simp [Table.set]

theorem Memory.size_pages_write (memory : Memory) (start : Nat) (bytes : Bytes) :
    (memory.write start bytes).pages.size = memory.pages.size := by
  induction bytes generalizing memory start with
  | nil => rfl
  | cons b bytes ih =>
    rw [Memory.write, ih]
    simp [Memory.setByte]

namespace Store

variable {store : Store} {address : Address}

theorem Updates.setTable {table changed : Table} (h : store.tables[address]? = some table)
    (hextends : table.Extends changed) :
    store.Updates { store with tables := store.tables.setIfInBounds address changed } where
  functions h := h
  memories h := ⟨_, h, Nat.le_refl _⟩
  globals h := ⟨_, h, rfl⟩
  tables {other old} hother := by
    obtain ⟨hlt, -⟩ := Array.getElem?_eq_some_iff.1 h
    by_cases heq : address = other
    · subst heq
      rw [h] at hother
      cases hother
      exact ⟨changed, Array.getElem?_setIfInBounds_self_of_lt hlt, hextends⟩
    · exact ⟨old, by rw [Array.getElem?_setIfInBounds_ne heq]; exact hother, .refl _⟩
  functions_size := rfl
  tables_size := Array.size_setIfInBounds
  memories_size := rfl
  globals_size := rfl

theorem Updates.setMemory {memory changed : Memory} (h : store.memories[address]? = some memory)
    (hsize : memory.pages.size ≤ changed.pages.size) :
    store.Updates { store with memories := store.memories.setIfInBounds address changed } where
  functions h := h
  tables h := ⟨_, h, .refl _⟩
  globals h := ⟨_, h, rfl⟩
  memories {other old} hother := by
    obtain ⟨hlt, -⟩ := Array.getElem?_eq_some_iff.1 h
    by_cases heq : address = other
    · subst heq
      rw [h] at hother
      cases hother
      exact ⟨changed, Array.getElem?_setIfInBounds_self_of_lt hlt, hsize⟩
    · exact ⟨old, by rw [Array.getElem?_setIfInBounds_ne heq]; exact hother, Nat.le_refl _⟩
  functions_size := rfl
  tables_size := rfl
  memories_size := Array.size_setIfInBounds
  globals_size := rfl

theorem Updates.setGlobal {cell changed : GlobalCell} (h : store.globals[address]? = some cell)
    (htype : changed.type = cell.type) :
    store.Updates { store with globals := store.globals.setIfInBounds address changed } where
  functions h := h
  tables h := ⟨_, h, .refl _⟩
  memories h := ⟨_, h, Nat.le_refl _⟩
  globals {other old} hother := by
    obtain ⟨hlt, -⟩ := Array.getElem?_eq_some_iff.1 h
    by_cases heq : address = other
    · subst heq
      rw [h] at hother
      cases hother
      exact ⟨changed, Array.getElem?_setIfInBounds_self_of_lt hlt, htype⟩
    · exact ⟨old, by rw [Array.getElem?_setIfInBounds_ne heq]; exact hother, rfl⟩
  functions_size := rfl
  tables_size := rfl
  memories_size := rfl
  globals_size := Array.size_setIfInBounds

theorem Extends.pushed {functions : Array Callable} {tables : Array Table} {memories : Array Memory}
    {globals : Array GlobalCell} (hfunctions : ∃ more, functions = store.functions ++ more)
    (htables : ∃ more, tables = store.tables ++ more)
    (hmemories : ∃ more, memories = store.memories ++ more)
    (hglobals : ∃ more, globals = store.globals ++ more) :
    store.Extends { functions, tables, memories, globals } := by
  obtain ⟨functions, rfl⟩ := hfunctions
  obtain ⟨tables, rfl⟩ := htables
  obtain ⟨memories, rfl⟩ := hmemories
  obtain ⟨globals, rfl⟩ := hglobals
  have keep {γ : Type} {old more : Array γ} {i : Nat} {v : γ} (h : old[i]? = some v) :
      (old ++ more)[i]? = some v := by
    obtain ⟨hlt, rfl⟩ := Array.getElem?_eq_some_iff.1 h
    rw [Array.getElem?_append_left hlt, Array.getElem?_eq_getElem hlt]
  exact ⟨keep, fun h => ⟨_, keep h, .refl _⟩, fun h => ⟨_, keep h, Nat.le_refl _⟩,
    fun h => ⟨_, keep h, rfl⟩⟩

end Store

namespace Run

instance (error : RuntimeError) (value : Option α) : Within Eq (require error value) := by
  cases value
  · exact inferInstanceAs (Within Eq (throw error))
  · exact inferInstanceAs (Within Eq (pure _))

instance (address : Address) : Within Eq (function address) := by
  unfold function
  infer_instance

instance (address : Address) : Within Eq (table address) := by
  unfold table
  infer_instance

instance (address : Address) : Within Eq (memory address) := by
  unfold memory
  infer_instance

instance (address : Address) : Within Eq (global address) := by
  unfold global
  infer_instance

variable {store next : Store} {address : Address}

theorem run_require_eq_ok {error : RuntimeError} {value : Option α} {a : α}
    (h : store.run (require error value) = (.ok a, next)) : value = some a ∧ next = store := by
  cases value with
  | none => cases h
  | some b => cases h; exact ⟨rfl, rfl⟩

/-- Reading a part of the store that is there. -/
theorem run_part {part : Store → Option α} {error : RuntimeError} {a : α} (h : part store = some a) :
    store.run (do require error (part (← get))) = (.ok a, store) := by
  rw [Store.run_bind_of_ok Store.run_get, h]
  rfl

theorem run_part_none {part : Store → Option α} {error : RuntimeError} (h : part store = none) :
    store.run (do require error (part (← get))) = (.error error, store) := by
  rw [Store.run_bind_of_ok Store.run_get, h]
  rfl

theorem run_function {function : Callable} (h : store.functions[address]? = some function) :
    store.run (Run.function address) = (.ok function, store) := run_part h

theorem run_table {table : Table} (h : store.tables[address]? = some table) :
    store.run (Run.table address) = (.ok table, store) := run_part h

theorem run_memory {memory : Memory} (h : store.memories[address]? = some memory) :
    store.run (Run.memory address) = (.ok memory, store) := run_part h

theorem run_global {cell : GlobalCell} (h : store.globals[address]? = some cell) :
    store.run (Run.global address) = (.ok cell, store) := run_part h

/-- What follows the reading of a part of the store may rest on what was read. -/
theorem within_part_bind {R : Store → Store → Prop} [StoreOrder R] {part : Store → Option α}
    {error : RuntimeError} {f : α → Run β}
    (h : ∀ (store : Store) a, part store = some a → R store (store.run (f a)).2) :
    Within R ((do require error (part (← get))) >>= f) where
  out store := by
    cases hpart : part store with
    | none =>
      rw [Store.run_bind, run_part_none hpart]
      exact StoreOrder.refl store
    | some a =>
      rw [Store.run_bind_of_ok (run_part hpart)]
      exact h store a hpart

/-! ### Operations -/

instance (address : Address) (slot : Nat) (value : Option Address) :
    Within Store.Updates (setSlot address slot value) := by
  refine within_part_bind fun store table h => ?_
  split
  · split
    · rw [Store.run_modify, Array.modify_eq_setIfInBounds h]
      exact Store.Updates.setTable h (.of_size_eq rfl (table.size_set slot value))
    · exact Store.Updates.refl store
  · exact Store.Updates.refl store

instance (address : Address) (start : Nat) (bytes : Bytes) :
    Within Store.Updates (writeMemory address start bytes) := by
  refine within_part_bind fun store memory h => ?_
  split
  · rw [Store.run_modify, Array.modify_eq_setIfInBounds h]
    exact Store.Updates.setMemory h (Nat.le_of_eq (memory.size_pages_write start bytes).symm)
  · exact Store.Updates.refl store

instance (address : Address) (value : Value) : Within Store.Updates (setGlobal address value) := by
  refine within_part_bind fun store cell h => ?_
  split
  · exact Store.Updates.setGlobal h rfl
  · exact Store.Updates.refl store

instance (function : Callable) : Within Store.Extends (addFunction function) where
  out store := Store.Extends.pushed ⟨#[function], rfl⟩ ⟨#[], by simp⟩ ⟨#[], by simp⟩ ⟨#[], by simp⟩

instance (table : Table) : Within Store.Extends (addTable table) where
  out store := Store.Extends.pushed ⟨#[], by simp⟩ ⟨#[table], rfl⟩ ⟨#[], by simp⟩ ⟨#[], by simp⟩

instance (memory : Memory) : Within Store.Extends (addMemory memory) where
  out store := Store.Extends.pushed ⟨#[], by simp⟩ ⟨#[], by simp⟩ ⟨#[memory], rfl⟩ ⟨#[], by simp⟩

instance (cell : GlobalCell) : Within Store.Extends (addGlobal cell) where
  out store := Store.Extends.pushed ⟨#[], by simp⟩ ⟨#[], by simp⟩ ⟨#[], by simp⟩ ⟨#[cell], rfl⟩

end Run

end WasmSnapshot
