import WasmSnapshot.Proofs.Host.Exec
import WasmSnapshot.Snapshot.Capture
import WasmSnapshot.Snapshot.Restore

/-! The states that a store can be brought to: a host calls functions, makes instances and items of
its own, writes to what there is, captures instances and restores them, and does whatever else takes
nothing from the store, in any order and as often as it likes. No event takes anything from the
store, so no run of events does. -/

namespace WasmSnapshot

variable {α : Type}

namespace Access

variable {x : Run α} {store : Store}

theorem run_ofRun : store.run (ofRun x) =
    match store.run x with
    | (.ok a, next) => (.ok a, next)
    | (.error e, next) => (.error (.runtime e), next) := by
  show (Except.mapError AccessError.runtime (store.run x).1, (store.run x).2) = _
  rcases store.run x with ⟨outcome, next⟩
  cases outcome <;> rfl

theorem run_ofRun_of_ok {next : Store} {a : α} (h : store.run x = (.ok a, next)) :
    store.run (ofRun x) = (.ok a, next) := by
  rw [run_ofRun, h]

theorem run_ofRun_eq_ok {next : Store} {a : α} (h : store.run (ofRun x) = (.ok a, next)) :
    store.run x = (.ok a, next) := by
  rw [run_ofRun] at h
  split at h
  · next hx => cases h; exact hx
  · cases h

/-- What follows the reading of a part of the store may rest on what was read. -/
theorem within_part_bind {R : Store → Store → Prop} [StoreOrder R] {β : Type}
    {part : Store → Option α} {error : RuntimeError} {f : α → Access β}
    (h : ∀ (store : Store) a, part store = some a → R store (store.run (f a)).2) :
    Within R (ofRun (do Run.require error (part (← get))) >>= f) where
  out store := by
    cases hpart : part store with
    | none =>
      rw [Store.run_bind, run_ofRun, Run.run_part_none hpart]
      exact StoreOrder.refl store
    | some a =>
      rw [Store.run_bind_of_ok (run_ofRun_of_ok (Run.run_part hpart))]
      exact h store a hpart

/-- What follows a computation that writes nothing may rest on what it returned. -/
theorem within_read_bind {R : Store → Store → Prop} [StoreOrder R] {β : Type} {x : Access α}
    [Within Eq x] {f : α → Access β}
    (h : ∀ a, store.run x = (.ok a, store) → R store (store.run (f a)).2) :
    R store (store.run (x >>= f)).2 := by
  rw [Store.run_bind]
  split
  · next a next hx =>
    cases (Within.of_run hx : store = next)
    exact h a hx
  · next error next hx =>
    cases (Within.of_run hx : store = next)
    exact StoreOrder.refl store

instance {R : Store → Store → Prop} [Within R x] : Within R (ofRun x) where
  out store := by
    rw [run_ofRun]
    split <;> next h => exact Within.of_run h

instance (outcome : Except AccessError α) : Within Eq (ofExcept outcome) := by
  cases outcome
  · exact inferInstanceAs (Within Eq (throw _))
  · exact inferInstanceAs (Within Eq (pure _))

end Access

section Snapshots

variable [Host]

namespace Capture

instance (address : Address) : Within Store.Extends (callGetter address) := by
  have hresults (results : List Value) : Within Store.Extends (match results with
      | [.i32 bits] => pure bits.toInt32
      | _ => throw (.runtime .invalidCode) : Access Int32) := by
    split <;> infer_instance
  unfold callGetter
  infer_instance

instance (readings : Readings) (entry : Accessor × Address) :
    Within Store.Extends (readAccessor readings entry) := by
  unfold readAccessor
  split <;> infer_instance

omit [Host] in
instance (exports : AccessorExports) : Within Eq (readMemory exports) := by
  unfold readMemory
  split <;> infer_instance

omit [Host] in
instance (exports : AccessorExports) : Within Eq (readTable exports) := by
  unfold readTable
  split <;> infer_instance

end Capture

instance (symbol : String) (inst : Instance) :
    Within Store.Extends (Snapshot.capture symbol inst) := by
  unfold Snapshot.capture
  infer_instance

namespace Restore

instance (memory : Memory) (pages : Nat) : Within Eq (growMemory memory pages) := by
  have hgrown (grown : Option Memory) : Within Eq (match grown with
      | some grown => pure grown
      | none => throw (.memoryGrowth memory.pages.size (pages - memory.pages.size)) :
        Access Memory) := by
    split <;> infer_instance
  unfold growMemory
  split <;> infer_instance

theorem size_growMemory {store next : Store} {memory grown : Memory} {pages : Nat}
    (h : store.run (growMemory memory pages) = (.ok grown, next)) :
    memory.pages.size ≤ grown.pages.size := by
  unfold growMemory at h
  split at h
  · split at h
    · next hgrown =>
      cases h
      rw [Exec.size_of_grow? hgrown]
      omega
    · cases h
  · cases h
    exact Nat.le_refl _

omit [Host] in
theorem size_pages_overlay (memory : Memory) (words : Array UInt32) :
    (memory.overlay words).pages.size = memory.pages.size := by
  simp [Memory.overlay]

instance (address : Address) (words : Array UInt32) :
    Within Store.Updates (writeMemory address words) := by
  refine Access.within_part_bind fun store memory h => ?_
  refine Access.within_read_bind fun grown hgrown => ?_
  split
  · exact Store.Updates.setMemory h (by rw [size_pages_overlay]; exact size_growMemory hgrown)
  · exact Store.Updates.refl store

instance {R : Store → Store → Prop} [StoreOrder R]
    [∀ address words, Within R (writeMemory address words)] (symbol : String)
    (exports : AccessorExports) (words : Option (Array UInt32)) :
    Within R (restoreMemory symbol exports words) := by
  unfold restoreMemory
  split
  · infer_instance
  · split <;> infer_instance

instance (address : Address) (length : Nat) : Within Store.Updates (growTable address length) := by
  refine Access.within_part_bind fun store table h => ?_
  split
  · dsimp only
    cases hgrown : table.grow? (length - table.slots.size) none with
    | none => exact Store.Updates.refl store
    | some grown => exact Store.Updates.setTable h (Table.extends_of_grow? hgrown)
  · exact Store.Updates.refl store

omit [Host] in
instance (symbol : String) (exports : AccessorExports) (address : Address)
    (entry : Option UInt32 × Nat) :
    Within Store.Updates (writeSlot symbol exports address entry) := by
  unfold writeSlot
  split
  · infer_instance
  · split <;> infer_instance

instance (symbol : String) (exports : AccessorExports) (address : Address)
    (entries : List (Option UInt32)) :
    Within Store.Updates (writeTable symbol exports address entries) := by
  unfold writeTable
  infer_instance

instance (symbol : String) (exports : AccessorExports) (entries : List (Option UInt32)) :
    Within Store.Updates (restoreTable symbol exports entries) := by
  unfold restoreTable
  split
  · split <;> infer_instance
  · infer_instance

instance (symbol : String) (exports : AccessorExports) (entry : Option GlobalValue × Nat) :
    Within Store.Extends (writeGlobal symbol exports entry) := by
  unfold writeGlobal
  split
  · infer_instance
  · split
    · infer_instance
    · split
      split <;> infer_instance

end Restore

instance (snapshot : Snapshot) (inst : Instance) : Within Store.Extends (snapshot.restore inst) := by
  unfold Snapshot.restore
  infer_instance

end Snapshots

/-! ### Events -/

/-- What a host can do with a store. -/
inductive Event where
  /-- Calls a function from outside, be it an export of an instance or one that it got by a table. -/
  | call (function : Address) (args : List Value)
  /-- Makes an instance of a module. -/
  | instantiate (m : Module) (provided : String → String → Option Extern)
  /-- Makes an item of its own. -/
  | addFunction (function : Callable)
  | addTable (table : Table)
  | addMemory (memory : Memory)
  | addGlobal (cell : GlobalCell)
  | writeMemory (memory : Address) (start : Nat) (bytes : Bytes)
  | growMemory (memory : Address) (added : Nat)
  /-- Puts a function, or null, into a slot of a table. -/
  | setSlot (table : Address) (slot : Nat) (value : Option Address)
  | growTable (table : Address) (added : Nat) (filling : Option Address)
  | setGlobal (global : Address) (value : Value)
  | capture (symbol : String) (inst : Instance)
  | restore (snapshot : Snapshot) (inst : Instance)
  /-- Does anything else that takes nothing from the store, such as to make an instance of a module
  whose code is not known. -/
  | other (change : Store → Store) (keeps : ∀ store : Store, store.Extends (change store))

namespace Event

variable [Host]

/-- Lets a memory grow, if it can. -/
def runGrowMemory (address : Address) (added : Nat) : Run Unit := do
  let memory ← Run.memory address
  match memory.grow? added with
  | some grown => Run.setMemory address grown
  | none => throw .memoryOutOfBounds

/-- Lets a table grow, if it can. -/
def runGrowTable (address : Address) (added : Nat) (filling : Option Address) : Run Unit := do
  let table ← Run.table address
  match table.grow? added filling with
  | some grown => Run.setTable address grown
  | none => throw (.tableGrowth added)

/-- The store after an event, which may have ended with an error. -/
def after (store : Store) : Event → Store
  | call function args => (store.run (Run.call function args)).2
  | instantiate m provided => (store.run (Instance.ofModule m provided)).2
  | addFunction function => (store.run (Run.addFunction function)).2
  | addTable table => (store.run (Run.addTable table)).2
  | addMemory memory => (store.run (Run.addMemory memory)).2
  | addGlobal cell => (store.run (Run.addGlobal cell)).2
  | writeMemory memory start bytes => (store.run (Run.writeMemory memory start bytes)).2
  | growMemory memory added => (store.run (runGrowMemory memory added)).2
  | setSlot table slot value => (store.run (Run.setSlot table slot value)).2
  | growTable table added filling => (store.run (runGrowTable table added filling)).2
  | setGlobal global value => (store.run (Run.setGlobal global value)).2
  | capture symbol inst => (store.run (Snapshot.capture symbol inst)).2
  | restore snapshot inst => (store.run (snapshot.restore inst)).2
  | other change _ => change store

instance (address : Address) (added : Nat) : Within Store.Updates (runGrowMemory address added) := by
  refine Run.within_part_bind fun store memory h => ?_
  split
  · next hgrown => exact Store.Updates.setMemory h (by rw [Exec.size_of_grow? hgrown]; omega)
  · exact Store.Updates.refl store

instance (address : Address) (added : Nat) (filling : Option Address) :
    Within Store.Updates (runGrowTable address added filling) := by
  refine Run.within_part_bind fun store table h => ?_
  split
  · next hgrown => exact Store.Updates.setTable h (Table.extends_of_grow? hgrown)
  · exact Store.Updates.refl store

/-- An event takes nothing from the store. -/
theorem extends_after (store : Store) (event : Event) : store.Extends (event.after store) := by
  cases event
  case other change keeps => exact keeps store
  all_goals exact Within.out (R := Store.Extends) store

end Event

section Runs

variable [Host]

/-- The store after a run of events. -/
def Store.afterAll (store : Store) (events : List Event) : Store :=
  events.foldl Event.after store

theorem Store.afterAll_concat (store : Store) (events : List Event) (event : Event) :
    store.afterAll (events ++ [event]) = event.after (store.afterAll events) :=
  List.foldl_append

/-- No run of events takes anything from the store. -/
theorem Store.extends_afterAll (store : Store) (events : List Event) :
    store.Extends (store.afterAll events) := by
  induction events generalizing store with
  | nil => exact Store.Extends.refl store
  | cons event events ih => exact (event.extends_after store).trans (ih (event.after store))

end Runs

end WasmSnapshot
