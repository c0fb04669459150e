import WasmSnapshot.Proofs.Snapshot.Order

/-! What a rejected snapshot leaves behind. Nothing is undone: the writes before the one that is
rejected have been made, and that one and those after it have changed nothing. The parts are written
one after another, and the memory and the size of a table once, before the rest of their part. So the
sooner a snapshot is rejected, the more of the instance is certain to be as it was. -/

namespace WasmSnapshot

/-- Whether an error says that a snapshot does not fit the instance. -/
def AccessError.rejects : AccessError → Bool
  | memoryGrowth _ _ | missingExport _ | memoryNotExported _ | tableNotExported _
  | tableTooLong _ => true
  | runtime _ | globalsTooLong => false

namespace Restore

namespace Part

/-- The place of a part in the order of the restoration. -/
def rank : Part → Nat
  | memory => 0
  | table => 1
  | globals => 2

/-- The part is the same in both stores, whichever instance it belongs to. -/
def Kept : Part → Store → Store → Prop
  | memory, before, after => after.memories = before.memories
  | table, before, after => after.tables = before.tables
  | globals, before, after => after.globals = before.globals

theorem of_rank_lt {part other : Part} (h : part.rank < other.rank) :
    other ≠ part ∧ part ≠ globals := by
  refine ⟨fun heq => ?_, fun heq => ?_⟩
  · rw [heq] at h
    exact Nat.lt_irrefl _ h
  · subst heq
    cases other <;> exact absurd h (by decide)

instance (part : Part) : StoreOrder part.Kept where
  refl store := by cases part <;> rfl
  trans h1 h2 := by cases part <;> exact Eq.trans h2 h1

end Part

namespace Write

/-- Whether a write is the one that comes before the others of its part. -/
def opens : Write → Bool
  | memory _ | tableSize _ => true
  | slot _ _ | global _ _ | pastEnd => false

/-- A write may come before another one. -/
def Precedes (write next : Write) : Prop :=
  write.part.rank ≤ next.part.rank ∧ (next.opens = true → write.part.rank < next.part.rank)

/-- A write is rejected with this error. -/
inductive Rejected (symbol : String) : Write → AccessError → Prop where
  | memoryNotExported (words : Array UInt32) :
      Rejected symbol (.memory words) (.memoryNotExported (symbol ++ "memory"))
  | memoryGrowth (words : Array UInt32) (pages added : Nat) :
      Rejected symbol (.memory words) (.memoryGrowth pages added)
  | tableNotExported (slots : Nat) :
      Rejected symbol (.tableSize slots) (.tableNotExported (symbol ++ "table"))
  | tableTooLong (slots : Nat) : Rejected symbol (.tableSize slots) (.tableTooLong slots)
  | function (position : Nat) (index : UInt32) :
      Rejected symbol (.slot position index)
        (.missingExport ((Accessor.function index).exportName symbol))
  | setter (index : UInt32) (value : GlobalValue) :
      Rejected symbol (.global index value) (.missingExport ((value.setter index).exportName symbol))

end Write

/-! ### The order of the writes -/

section Order

variable {write : Write} {writes : List Write} {part : Part}

theorem Write.of_mem_slots {entries : List (Option UInt32)}
    (h : write ∈ entries.zipIdx.filterMap ofSlot?) : write.part = .table ∧ write.opens = false := by
  obtain ⟨entry, -, hwrite⟩ := List.mem_filterMap.1 h
  obtain ⟨index, -, rfl⟩ := Option.map_eq_some_iff.1 hwrite
  exact ⟨rfl, rfl⟩

theorem Write.of_mem_globals {entries : List (Option GlobalValue)}
    (h : write ∈ entries.zipIdx.filterMap ofGlobal?) :
    write.part = .globals ∧ write.opens = false := by
  obtain ⟨entry, -, hwrite⟩ := List.mem_filterMap.1 h
  unfold ofGlobal? at hwrite
  split at hwrite
  · cases hwrite
    exact ⟨rfl, rfl⟩
  · obtain ⟨value, -, rfl⟩ := Option.map_eq_some_iff.1 hwrite
    exact ⟨rfl, rfl⟩

theorem Write.precedes_of_lt {next : Write} (h : write.part.rank < next.part.rank) :
    write.Precedes next := ⟨Nat.le_of_lt h, fun _ => h⟩

theorem Write.precedes_of_not_opens {next : Write} (hpart : write.part = next.part)
    (hopens : next.opens = false) : write.Precedes next :=
  ⟨Nat.le_of_eq (congrArg Part.rank hpart), fun hopen => by rw [hopens] at hopen; cases hopen⟩

/-- Writes for one part of which none opens it. -/
theorem Write.pairwise_precedes
    (h : ∀ write ∈ writes, write.part = part ∧ write.opens = false) :
    writes.Pairwise Precedes :=
  List.pairwise_of_forall_mem_list fun write hwrite next hnext =>
    precedes_of_not_opens ((h write hwrite).1.trans (h next hnext).1.symm) (h next hnext).2

end Order

end Restore

namespace Snapshot

open Restore

variable {write : Write} {snapshot : Snapshot}

/-- Where there are writes to the table, its size is one of them. -/
theorem tableSize_mem_writes (h : write ∈ snapshot.writes) (hpart : write.part = .table) :
    .tableSize snapshot.table.length ∈ snapshot.writes := by
  rcases List.mem_append.1 h with hmemory | h
  · obtain ⟨words, -, rfl⟩ := List.mem_map.1 hmemory
    cases hpart
  rcases List.mem_append.1 h with htable | hglobals
  · refine List.mem_append_right _ (List.mem_append_left _ ?_)
    split at htable
    · next hany =>
      rw [if_pos hany]
      exact List.mem_cons_self
    · cases htable
  · rw [(Write.of_mem_globals hglobals).1] at hpart
    cases hpart

/-- The parts are written in order, and each is opened at most once, before it is written to. -/
theorem writes_pairwise (snapshot : Snapshot) : snapshot.writes.Pairwise Write.Precedes := by
  have htable : ∀ write ∈ (if snapshot.table.any Option.isSome then
      .tableSize snapshot.table.length :: snapshot.table.zipIdx.filterMap Write.ofSlot? else []),
      write.part = .table := by
    intro write hmem
    split at hmem
    · rcases List.mem_cons.1 hmem with rfl | hmem
      · rfl
      · exact (Write.of_mem_slots hmem).1
    · cases hmem
  refine List.pairwise_append.2 ⟨?_, List.pairwise_append.2 ⟨?_, ?_, ?_⟩, ?_⟩
  · cases snapshot.memory with
    | none => exact .nil
    | some words => exact List.pairwise_singleton _ _
  · split
    · refine List.pairwise_cons.2 ⟨fun write hmem => ?_, ?_⟩
      · obtain ⟨hpart, hopens⟩ := Write.of_mem_slots hmem
        exact Write.precedes_of_not_opens hpart.symm hopens
      · exact Write.pairwise_precedes fun write => Write.of_mem_slots
    · exact .nil
  · exact Write.pairwise_precedes fun write => Write.of_mem_globals
  · intro write hwrite next hnext
    apply Write.precedes_of_lt
    rw [htable write hwrite, (Write.of_mem_globals hnext).1]
    decide
  · intro write hwrite next hnext
    obtain ⟨words, -, rfl⟩ := List.mem_map.1 hwrite
    have hpart : next.part = .table ∨ next.part = .globals :=
      (List.mem_append.1 hnext).imp (htable next) fun hmem => (Write.of_mem_globals hmem).1
    apply Write.precedes_of_lt
    rcases hpart with hpart | hpart
    · rw [hpart]
      exact Nat.one_pos
    · rw [hpart]
      exact Nat.two_pos

section Done

variable {done rest : List Write} (hwrites : snapshot.writes = done ++ write :: rest)

include hwrites

theorem precedes_of_mem_done {earlier : Write} (h : earlier ∈ done) : earlier.Precedes write := by
  have hpairwise := snapshot.writes_pairwise
  rw [hwrites] at hpairwise
  exact (List.pairwise_append.1 hpairwise).2.2 earlier h write List.mem_cons_self

/-- Before a slot is written to, the size of the table is. -/
theorem tableSize_mem_done (hpart : write.part = .table) (hopens : write.opens = false) :
    .tableSize snapshot.table.length ∈ done := by
  have hpairwise := snapshot.writes_pairwise
  have hmem : write ∈ snapshot.writes := by rw [hwrites]; simp
  have hsize := tableSize_mem_writes hmem hpart
  rw [hwrites] at hpairwise hsize
  rcases List.mem_append.1 hsize with hdone | hsize
  · exact hdone
  rcases List.mem_cons.1 hsize with heq | hrest
  · rw [← heq] at hopens
    cases hopens
  · have hlt := (List.rel_of_pairwise_cons (List.pairwise_append.1 hpairwise).2.1 hrest).2 rfl
    rw [hpart] at hlt
    exact absurd hlt (Nat.lt_irrefl _)

end Done

end Snapshot

/-! ### What a rejected write does -/

section Rejected

variable [Host] {α : Type} {symbol : String} {exports : AccessorExports} {store after : Store}
  {address : Address} {e : AccessError}

omit [Host] in
theorem Access.rejects_eq_false_of_ofRun {x : Run α}
    (h : store.run (ofRun x) = (.error e, after)) : e.rejects = false := by
  rw [run_ofRun] at h
  split at h
  · cases h
  · cases h
    rfl

namespace Restore

theorem rejected_writeMemory {words : Array UInt32}
    (h : store.run (writeMemory address words) = (.error e, after)) (hrejects : e.rejects = true) :
    (∃ pages added, e = .memoryGrowth pages added) ∧ after = store := by
  rcases Store.run_bind_eq_error h with h | ⟨memory, _, hread, h⟩
  · rw [Access.rejects_eq_false_of_ofRun h] at hrejects
    cases hrejects
  cases (Within.of_run hread : store = _)
  rcases Store.run_bind_eq_error h with h | ⟨grown, _, hgrow, h⟩
  · unfold growMemory at h
    split at h
    · split at h
      · cases h
      · cases h
        exact ⟨⟨_, _, rfl⟩, rfl⟩
    · cases h
  cases (Within.of_run hgrow : store = _)
  split at h
  · rw [Access.rejects_eq_false_of_ofRun h] at hrejects
    cases hrejects
  · cases h
    cases hrejects

theorem rejects_eq_false_of_growTable {length : Nat}
    (h : store.run (growTable address length) = (.error e, after)) : e.rejects = false := by
  rcases Store.run_bind_eq_error h with h | ⟨table, next, -, h⟩
  · exact Access.rejects_eq_false_of_ofRun h
  split at h
  · rcases Store.run_bind_eq_error h with h | ⟨grown, last, -, h⟩
    · exact Access.rejects_eq_false_of_ofRun h
    · exact Access.rejects_eq_false_of_ofRun h
  · cases h

/-- A write that is rejected changes nothing. The slots are written after the size of the table has
been, so there is a table then. -/
theorem Write.rejected_of_run {write : Write}
    (h : store.run (write.run symbol exports) = (.error e, after)) (hrejects : e.rejects = true)
    (htable : write.part = .table → write.opens = false → exports.table.isSome = true) :
    write.Rejected symbol e ∧ after = store := by
  cases write with
  | memory words =>
    rw [Write.run, restoreMemory] at h
    split at h
    · cases h
      exact ⟨.memoryNotExported words, rfl⟩
    · obtain ⟨⟨pages, added, rfl⟩, hafter⟩ := rejected_writeMemory h hrejects
      exact ⟨.memoryGrowth words pages added, hafter⟩
  | tableSize slots =>
    rw [Write.run, toTable] at h
    split at h
    · cases h
      exact ⟨.tableNotExported slots, rfl⟩
    · split at h
      · cases h
        exact ⟨.tableTooLong slots, rfl⟩
      · rw [rejects_eq_false_of_growTable h] at hrejects
        cases hrejects
  | slot position index =>
    obtain ⟨address, haddress⟩ := Option.isSome_iff_exists.1 (htable rfl rfl)
    rw [Write.run, toTable, haddress] at h
    simp only [writeSlot] at h
    split at h
    · cases h
      exact ⟨.function position index, rfl⟩
    · rw [Access.rejects_eq_false_of_ofRun h] at hrejects
      cases hrejects
  | global index value =>
    simp only [Write.run, setterFor_fst] at h
    split at h
    · cases h
      exact ⟨.setter index value, rfl⟩
    · rcases Store.run_bind_eq_error h with h | ⟨results, next, -, h⟩
      · rw [Access.rejects_eq_false_of_ofRun h] at hrejects
        cases hrejects
      · cases h
  | pastEnd =>
    cases h
    cases hrejects

/-! ### What other writes do -/

omit [Host] in
theorem Part.kept_of_memories {part : Part} (hne : part ≠ .memory) (memories : Array Memory) :
    part.Kept store { store with memories } := by
  cases part with
  | memory => exact absurd rfl hne
  | table => rfl
  | globals => rfl

omit [Host] in
theorem Part.kept_of_tables {part : Part} (hne : part ≠ .table) (tables : Array Table) :
    part.Kept store { store with tables } := by
  cases part with
  | memory => rfl
  | table => exact absurd rfl hne
  | globals => rfl

/-- Writes to the memory and to the table keep the other parts. Of setters this is not said, for any
function may be exported under their names. -/
theorem Write.within_kept {write : Write} {part : Part} (hne : part ≠ write.part)
    (hglobals : write.part ≠ .globals) : Within part.Kept (write.run symbol exports) := by
  cases write with
  | memory words =>
    have hset (address : Address) (memory : Memory) :
        Within part.Kept (Run.setMemory address memory) :=
      ⟨fun store => Part.kept_of_memories hne _⟩
    unfold Write.run restoreMemory writeMemory
    simp only
    split <;> infer_instance
  | tableSize slots =>
    have hset (address : Address) (table : Table) : Within part.Kept (Run.setTable address table) :=
      ⟨fun store => Part.kept_of_tables hne _⟩
    unfold Write.run toTable growTable
    simp only
    split <;> infer_instance
  | slot position index =>
    have hset (address : Address) (slot : Nat) (value : Option Address) :
        Within part.Kept (Run.setSlot address slot value) := by
      have hmodify : Within part.Kept (modify fun store => { store with
          tables := store.tables.modify address (·.set slot value) } : Run Unit) :=
        ⟨fun store => Part.kept_of_tables hne _⟩
      unfold Run.setSlot
      infer_instance
    unfold Write.run toTable writeSlot
    simp only
    split
    · infer_instance
    · split <;> infer_instance
  | global index value => exact absurd rfl hglobals
  | pastEnd => exact absurd rfl hglobals

theorem kept_of_writes {writes : List Write} {part : Part} {outcome : Except AccessError Unit}
    (hother : ∀ write ∈ writes, part ≠ write.part ∧ write.part ≠ .globals)
    (h : store.run (writes.forM (Write.run symbol exports)) = (outcome, after)) :
    part.Kept store after := by
  have hwithin : Within part.Kept (writes.forM (Write.run symbol exports)) := by
    clear h
    induction writes with
    | nil => exact inferInstanceAs (Within part.Kept (pure PUnit.unit))
    | cons write writes ih =>
      obtain ⟨⟨hne, hglobals⟩, hothers⟩ := List.forall_mem_cons.1 hother
      exact Within.bind (Write.within_kept hne hglobals) fun _ => ih hothers
  exact Within.of_run h

/-- Writes that are made keep the parts that none of them is for. -/
theorem Performed.kept {selection : Selection} {original : Declarations} {inst : Instance}
    {writes : List Write} {part : Part}
    (h : Performed selection original inst writes store after)
    (hother : ∀ write ∈ writes, part ≠ write.part) : part.Kept store after := by
  induction h with
  | nil => exact StoreOrder.refl _
  | cons first others ih =>
    obtain ⟨hne, hothers⟩ := List.forall_mem_cons.1 hother
    refine StoreOrder.trans ?_ (ih hothers)
    cases first with
    | memory => exact Part.kept_of_memories hne _
    | tableSize => exact Part.kept_of_tables hne _
    | slot => exact Part.kept_of_tables hne _
    | global => cases part with
      | memory => rfl
      | table => rfl
      | globals => exact absurd rfl hne

theorem table_isSome_of_run {slots : Nat}
    (h : store.run ((Write.tableSize slots).run symbol exports) = (.ok (), after)) :
    exports.table.isSome = true := by
  rw [Write.run, Write.toTable] at h
  split at h
  · cases h
  · next htable => rw [htable]; rfl

end Restore

end Rejected

/-- What a snapshot that is rejected leaves behind, whatever the instance is. All writes before the one
that is rejected have been made; that one and those after it have changed nothing. So the parts that
come later are as they were, and the part that the write is for is, too, if the write was to open it.
In a module that was given accessors, and has no exports of its own under their names, each part is as
it was that none of the writes before is for. -/
theorem restore_rejected [Host] {inst : Instance} {store after : Store} {snapshot : Snapshot}
    {e : AccessError} (hrejects : e.rejects = true)
    (hrun : store.run (snapshot.restore inst) = (.error e, after)) :
    ∃ done write rest, snapshot.writes = done ++ write :: rest ∧
      store.run (done.forM (Restore.Write.run snapshot.symbol
        (AccessorExports.ofInstance snapshot.symbol inst))) = (.ok (), after) ∧
      write.Rejected snapshot.symbol e ∧
      (∀ part, write.part.rank < part.rank ∨ write.opens = true ∧ part = write.part →
        part.Kept store after) ∧
      ∀ {selection symbol bytes sections original m},
        Prepared selection symbol bytes sections original m →
        (∀ e ∈ original.exports, Accessor.ofExportName? snapshot.symbol e.name = none) →
        inst.Of m store →
        Restore.Performed selection (original.seenUnder symbol snapshot.symbol) inst done
          store after ∧
        ∀ part, (∀ earlier ∈ done, part ≠ earlier.part) → part.Kept store after := by
  rw [snapshot.restore_eq] at hrun
  obtain ⟨done, write, rest, middle, hwrites, hdone, hwrite⟩ := Store.run_forM_eq_error.1 hrun
  have htable (hpart : write.part = .table) (hopens : write.opens = false) :
      (AccessorExports.ofInstance snapshot.symbol inst).table.isSome = true := by
    have hmem := Snapshot.tableSize_mem_done hwrites hpart hopens
    obtain ⟨before, next, hsized⟩ := Store.exists_run_of_mem hdone hmem
    exact Restore.table_isSome_of_run hsized
  obtain ⟨hrejected, rfl⟩ := Restore.Write.rejected_of_run hwrite hrejects htable
  refine ⟨done, write, rest, hwrites, hdone, hrejected, ?_, ?_⟩
  · intro part hpart
    refine Restore.kept_of_writes (fun earlier hmem => ?_) hdone
    obtain ⟨hle, hlt⟩ := Snapshot.precedes_of_mem_done hwrites hmem
    apply Restore.Part.of_rank_lt
    rcases hpart with hlater | ⟨hopens, rfl⟩
    · exact Nat.lt_of_le_of_lt hle hlater
    · exact hlt hopens
  · intro selection symbol bytes sections original m h hnames hof
    have hperformed := (Restore.performed_iff (h.exposes_under hnames hof)).1 hdone
    exact ⟨hperformed, fun part hother => hperformed.kept hother⟩

/-- The function that the snapshot needs is missing, but the table has been made longer by then. -/
theorem table_grown_by_rejected : ∃ (declared : Declarations) (inst : Instance)
    (store after : Store),
    Prepared .all "_" (Section.encodeModule sampleSections) sampleSections sampleDeclarations
      declared ∧
    inst.Of declared store ∧
    store.run (unknownFunctionSnapshot.restore inst) =
      (.error (.missingExport "_func_9"), after) ∧
    (inst.exposedTable? .all sampleDeclarations store).map (·.slots.size) = some 1 ∧
    (inst.exposedTable? .all sampleDeclarations after).map (·.slots.size) = some 2 := by
  obtain ⟨declared, inst, made, hprepared, hof, hgrown⟩ := exists_sample
    (p := fun inst made =>
      let restored := made.run (unknownFunctionSnapshot.restore inst)
      decide (restored.1 = .error (.missingExport "_func_9") ∧
        (inst.exposedTable? .all sampleDeclarations made).map (·.slots.size) = some 1 ∧
        (inst.exposedTable? .all sampleDeclarations restored.2).map (·.slots.size) = some 2))
    (by decide +kernel)
  obtain ⟨hfails, hsizes⟩ := of_decide_eq_true hgrown
  exact ⟨declared, inst, made, _, hprepared, hof, Prod.ext hfails rfl, hsizes⟩

theorem restore_rejected_unknownFunction : ∃ (declared : Declarations) (inst : Instance)
    (store after : Store) (done : List Restore.Write) (write : Restore.Write)
    (rest : List Restore.Write),
    Prepared .all "_" (Section.encodeModule sampleSections) sampleSections sampleDeclarations
      declared ∧
    (∀ e ∈ sampleDeclarations.exports, Accessor.ofExportName? "_" e.name = none) ∧
    inst.Of declared store ∧ (AccessError.missingExport "_func_9").rejects = true ∧
    store.run (unknownFunctionSnapshot.restore inst) =
      (.error (.missingExport "_func_9"), after) ∧
    unknownFunctionSnapshot.writes = done ++ write :: rest ∧
    Restore.Performed .all (sampleDeclarations.seenUnder "_" "_") inst done store after ∧
    write.Rejected "_" (.missingExport "_func_9") ∧ Restore.Part.globals.Kept store after := by
  obtain ⟨declared, inst, store, after, hprepared, hof, hrun⟩ := fails_unknownFunction
  obtain ⟨done, write, rest, hwrites, -, hrejected, -, hprepares⟩ := restore_rejected rfl hrun
  obtain ⟨hdone, hkept⟩ := hprepares hprepared hprepared.names hof
  have hparts : ∀ write ∈ unknownFunctionSnapshot.writes, .globals ≠ write.part := by decide
  have hglobals := hkept .globals fun earlier hmem => hparts earlier (by rw [hwrites]; simp [hmem])
  exact ⟨declared, inst, store, after, done, write, rest, hprepared, hprepared.names, hof, rfl,
    hrun, hwrites, hdone, hrejected, hglobals⟩

end WasmSnapshot
