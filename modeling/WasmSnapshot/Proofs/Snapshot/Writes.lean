import WasmSnapshot.Proofs.Snapshot.Restore

/-! Restoring as a list of writes. A snapshot is taken apart into the writes that it asks for, in the
order of the restoration; restoring is carrying them out until one of them fails. A write that the
instance cannot take is refused before it changes anything, so what is left behind is the work of the
writes before it. -/

namespace WasmSnapshot

namespace Store

variable {ε α : Type} {f : α → ExceptT ε (StateM Store) Unit} {list : List α}
  {store after : Store} {e : ε}

theorem run_forM_cons_of_ok {a : α} {next : Store} (h : store.run (f a) = (.ok (), next)) :
    store.run ((a :: list).forM f) = next.run (list.forM f) := run_bind_of_ok h

theorem run_forM_cons_of_error {a : α} (h : store.run (f a) = (.error e, after)) :
    store.run ((a :: list).forM f) = (.error e, after) := by
  show store.run (f a >>= fun _ => list.forM f) = _
  rw [run_bind, h]

/-- A loop fails at its first step that does, in the store that the steps before it leave. -/
theorem run_forM_eq_error : store.run (list.forM f) = (.error e, after) ↔
    ∃ done a rest middle, list = done ++ a :: rest ∧ store.run (done.forM f) = (.ok (), middle) ∧
      middle.run (f a) = (.error e, after) := by
  induction list generalizing store with
  | nil =>
    constructor
    · intro h
      cases h
    · rintro ⟨done, a, rest, -, h, -⟩
      simp at h
  | cons b list ih =>
    constructor
    · intro h
      rcases hb : store.run (f b) with ⟨e' | ⟨⟩, next⟩
      · rw [run_forM_cons_of_error hb] at h
        cases h
        exact ⟨[], b, list, store, rfl, rfl, hb⟩
      · rw [run_forM_cons_of_ok hb] at h
        obtain ⟨done, a, rest, middle, rfl, hdone, ha⟩ := ih.1 h
        exact ⟨b :: done, a, rest, middle, rfl, (run_forM_cons_of_ok hb).trans hdone, ha⟩
    · rintro ⟨done, a, rest, middle, heq, hdone, ha⟩
      cases done with
      | nil =>
        cases heq
        cases hdone
        exact run_forM_cons_of_error ha
      | cons first done =>
        cases heq
        obtain ⟨⟨⟩, next, hfirst, hdone⟩ := run_bind_eq_ok hdone
        rw [run_forM_cons_of_ok hfirst]
        exact ih.2 ⟨done, a, rest, middle, rfl, hdone, ha⟩

/-- In a loop that comes to its end, each step does. -/
theorem exists_run_of_mem {a : α} (h : store.run (list.forM f) = (.ok (), after)) (hmem : a ∈ list) :
    ∃ before next : Store, before.run (f a) = (.ok (), next) := by
  induction list generalizing store with
  | nil => cases hmem
  | cons b list ih =>
    obtain ⟨⟨⟩, next, hfirst, hothers⟩ := run_bind_eq_ok h
    rcases List.mem_cons.1 hmem with rfl | hmem
    · exact ⟨store, next, hfirst⟩
    · exact ih hothers hmem

end Store

theorem List.forM_filterMap {m : Type → Type} [Monad m] [LawfulMonad m] {α β : Type}
    (g : α → Option β) (f : β → m Unit) (list : List α) :
    (list.filterMap g).forM f = list.forM fun a => (g a).elim (pure ()) f := by
  induction list with
  | nil => rfl
  | cons a list ih =>
    cases hg : g a with
    | none =>
      rw [List.filterMap_cons_none hg, ih]
      simp [List.forM, hg]
    | some b =>
      rw [List.filterMap_cons_some hg]
      simp [List.forM, hg, ih]

namespace Restore

/-- The parts of an instance, in the order in which they are restored. -/
inductive Part where
  | memory
  | table
  | globals
  deriving DecidableEq, Repr

/-- A write that a snapshot asks for. -/
inductive Write where
  /-- These words go to the front of the memory, which grows if it is too small. -/
  | memory (words : Array UInt32)
  /-- The table grows to so many slots, if it has fewer. -/
  | tableSize (slots : Nat)
  /-- A slot gets the function of the module that has the index. -/
  | slot (position : Nat) (index : UInt32)
  | global (index : UInt32) (value : GlobalValue)
  /-- There is an entry at a position that has no next one of 32 bits. -/
  | pastEnd
  deriving DecidableEq, Repr

namespace Write

variable [Host]

/-- The part of an instance that a write is for. -/
def part : Write → Part
  | memory _ => .memory
  | tableSize _ | slot _ _ => .table
  | global _ _ | pastEnd => .globals

/-- The write for an entry of the table. Holes ask for none. -/
def ofSlot? (entry : Option UInt32 × Nat) : Option Write := entry.1.map (slot entry.2)

/-- The write for an entry of the globals. -/
def ofGlobal? (entry : Option GlobalValue × Nat) : Option Write :=
  if UInt32.size ≤ entry.2 + 1 then some pastEnd
  else entry.1.map (global (UInt32.ofNat entry.2))

/-- Writes to the table that an instance exports. -/
def toTable (symbol : String) (exports : AccessorExports) (write : Address → Access Unit) :
    Access Unit :=
  match exports.table with
  | none => throw (.tableNotExported (Accessor.table.exportName symbol))
  | some address => write address

/-- Carries out a write. -/
def run (symbol : String) (exports : AccessorExports) : Write → Access Unit
  | memory words => restoreMemory symbol exports (some words)
  | tableSize slots => toTable symbol exports fun address =>
    if UInt32.size ≤ slots then throw (.tableTooLong slots) else growTable address slots
  | slot position index => toTable symbol exports fun address =>
    writeSlot symbol exports address (some index, position)
  | global index value =>
    let (setter, signature, args) := setterFor index value
    match exports.accessor? setter with
    | none => throw (.missingExport (setter.exportName symbol))
    | some address => do
      let _results ← Access.ofRun (Run.callTyped signature.type address args)
  | pastEnd => throw .globalsTooLong

end Write

end Restore

/-- The writes that a snapshot asks for: the memory, then the table and its slots in ascending order,
if there is a function in one of them, then the globals in ascending order. -/
def Snapshot.writes (snapshot : Snapshot) : List Restore.Write :=
  snapshot.memory.toList.map .memory ++
  ((if snapshot.table.any Option.isSome then
    .tableSize snapshot.table.length :: snapshot.table.zipIdx.filterMap Restore.Write.ofSlot?
  else []) ++ snapshot.globals.zipIdx.filterMap Restore.Write.ofGlobal?)

namespace Restore

variable [Host] {symbol : String} {exports : AccessorExports}

theorem restoreMemory_eq (recorded : Option (Array UInt32)) :
    restoreMemory symbol exports recorded =
      (recorded.toList.map Write.memory).forM (Write.run symbol exports) := by
  cases recorded with
  | none => rfl
  | some words => exact (bind_pure _).symm

omit [Host] in
theorem throw_bind {α β : Type} (e : AccessError) (f : α → Access β) :
    (throw e >>= f : Access β) = throw e := rfl

theorem restoreTable_eq (entries : List (Option UInt32)) :
    restoreTable symbol exports entries =
      (if entries.any Option.isSome then
        .tableSize entries.length :: entries.zipIdx.filterMap Write.ofSlot?
      else []).forM (Write.run symbol exports) := by
  unfold restoreTable
  split
  · have hslots : (entries.zipIdx.filterMap Write.ofSlot?).forM (Write.run symbol exports) =
        entries.zipIdx.forM fun entry =>
          (Write.ofSlot? entry).elim (pure ()) (Write.run symbol exports) :=
      List.forM_filterMap _ _ _
    show _ = (Write.tableSize entries.length).run symbol exports >>= fun _ =>
      (entries.zipIdx.filterMap Write.ofSlot?).forM (Write.run symbol exports)
    rw [hslots]
    cases haddress : exports.table with
    | none => simp only [Write.run, Write.toTable, haddress, throw_bind]
    | some address =>
      have hstep (entry : Option UInt32 × Nat) : writeSlot symbol exports address entry =
          (Write.ofSlot? entry).elim (pure ()) (Write.run symbol exports) := by
        obtain ⟨recorded, position⟩ := entry
        cases recorded with
        | none => rfl
        | some index => simp [Write.ofSlot?, Write.run, Write.toTable, haddress]
      simp only [Write.run, Write.toTable, haddress, writeTable, ← hstep]
      split <;> rfl
  · rfl

theorem writeGlobal_eq (entry : Option GlobalValue × Nat) : writeGlobal symbol exports entry =
    (Write.ofGlobal? entry).elim (pure ()) (Write.run symbol exports) := by
  unfold writeGlobal Write.ofGlobal?
  split
  · rfl
  · obtain ⟨recorded, position⟩ := entry
    cases recorded <;> rfl

theorem writeGlobals_eq (entries : List (Option GlobalValue)) :
    entries.zipIdx.forM (writeGlobal symbol exports) =
      (entries.zipIdx.filterMap Write.ofGlobal?).forM (Write.run symbol exports) := by
  rw [List.forM_filterMap]
  congr 1
  exact funext writeGlobal_eq

end Restore

/-- Restoring a snapshot is carrying out its writes one after another. -/
theorem Snapshot.restore_eq [Host] (snapshot : Snapshot) (inst : Instance) :
    snapshot.restore inst = snapshot.writes.forM
      (Restore.Write.run snapshot.symbol (AccessorExports.ofInstance snapshot.symbol inst)) := by
  rw [restore, writes, Restore.restoreMemory_eq, Restore.restoreTable_eq, Restore.writeGlobals_eq]
  exact (List.forM_append.trans (bind_congr fun _ => List.forM_append)).symm

end WasmSnapshot
