import Mathlib.Data.Nat.Basic
import Mathlib.Order.Basic
import WasmSnapshot.Proofs.Snapshot.Legible

/-! What is captured of an instance does not depend on the order of its exports. It is the one
snapshot that shows the instance, or the error that names the first half of a global that is missing.
Both are said in terms of which accessors are exported, and not where. -/

namespace WasmSnapshot

namespace Instance

/-- An instance has an export that is read as the accessor. -/
def Has (symbol : String) (inst : Instance) (accessor : Accessor) : Prop :=
  ∃ address, (accessor, address) ∈ inst.accessors symbol

/-- The getter that is read as the accessor returns a value. -/
def Reads [Host] (symbol : String) (inst : Instance) (store : Store) (accessor : Accessor)
    (value : Int32) : Prop :=
  ∃ address, (accessor, address) ∈ inst.accessors symbol ∧
    store.run (Capture.callGetter address) = (.ok value, store)

/-- One half of a global has no getter where the other half has one. -/
inductive Lacks (symbol : String) (inst : Instance) (index : UInt32) : Accessor → Prop
  | high (low : inst.Has symbol (.i64GetterLow index))
      (absent : ¬ inst.Has symbol (.i64GetterHigh index)) :
      Lacks symbol inst index (.i64GetterHigh index)
  | low (high : inst.Has symbol (.i64GetterHigh index))
      (absent : ¬ inst.Has symbol (.i64GetterLow index)) :
      Lacks symbol inst index (.i64GetterLow index)

/-- A half that is missing, of the smallest index that one is missing of. -/
structure LacksFirst (symbol : String) (inst : Instance) (index : UInt32) (accessor : Accessor) :
    Prop where
  lacks : inst.Lacks symbol index accessor
  least {other : UInt32} {lacked : Accessor} : inst.Lacks symbol other lacked → index ≤ other

end Instance

/-- What a snapshot shows of an instance, in terms of its exports without their order. -/
structure Snapshot.Shows [Host] (snapshot : Snapshot) (symbol : String) (inst : Instance)
    (store : Store) : Prop where
  memory (words : Array UInt32) : snapshot.memory = some words ↔ ∃ address memory,
    (Accessor.memory, address) ∈ inst.accessors symbol ∧
    store.memories[address]? = some memory ∧ words = memory.words
  length_table (i : Nat) : i < snapshot.table.length ↔ ∃ address table,
    (Accessor.table, address) ∈ inst.accessors symbol ∧ store.tables[address]? = some table ∧
    i < table.slots.size
  table (i : Nat) (index : UInt32) : snapshot.table[i]? = some (some index) ↔
    ∃ address table function, (Accessor.table, address) ∈ inst.accessors symbol ∧
      store.tables[address]? = some table ∧ table.function? i = some function ∧
      inst.Names symbol function index
  i64 (index : UInt32) (high low : Int32) : snapshot.global? index = some (.i64 high low) ↔
    inst.Reads symbol store (.i64GetterHigh index) high ∧
    inst.Reads symbol store (.i64GetterLow index) low
  /-- The halves come before a getter of a global of 32 bits. -/
  i32 (index : UInt32) (value : Int32) : snapshot.global? index = some (.i32 value) ↔
    inst.Reads symbol store (.i32Getter index) value ∧
    ¬ (inst.Has symbol (.i64GetterHigh index) ∧ inst.Has symbol (.i64GetterLow index))
  /-- The list ends at the last global that has a getter. -/
  length_globals (i : Nat) : i < snapshot.globals.length ↔ ∃ accessor index,
    inst.Has symbol accessor ∧ accessor.reads = true ∧ accessor.global? = some index ∧
    i ≤ index.toNat
  symbol_eq : snapshot.symbol = symbol

namespace Snapshot.Shows

variable [Host] {snapshot other : Snapshot} {symbol : String} {inst reordered : Instance} {store : Store}

theorem global?_eq (h : snapshot.Shows symbol inst store) (h' : other.Shows symbol inst store)
    (index : UInt32) : snapshot.global? index = other.global? index := by
  refine Option.ext fun value => ?_
  cases value with
  | i32 value => exact (h.i32 index value).trans (h'.i32 index value).symm
  | i64 high low => exact (h.i64 index high low).trans (h'.i64 index high low).symm

/-- There is one snapshot that shows an instance. -/
theorem unique (h : snapshot.Shows symbol inst store) (h' : other.Shows symbol inst store) :
    snapshot = other := by
  have hmemory : snapshot.memory = other.memory :=
    Option.ext fun words => (h.memory words).trans (h'.memory words).symm
  have htable : snapshot.table = other.table := by
    have hlength : snapshot.table.length = other.table.length := eq_of_forall_lt_iff fun i =>
      (h.length_table i).trans (h'.length_table i).symm
    refine List.ext_getElem hlength fun i hi hi' => Option.ext fun index => ?_
    have hentry := (h.table i index).trans (h'.table i index).symm
    rwa [List.getElem?_eq_getElem hi, List.getElem?_eq_getElem hi', Option.some.injEq,
      Option.some.injEq] at hentry
  have hglobals : snapshot.globals = other.globals := by
    have hlength : snapshot.globals.length = other.globals.length := eq_of_forall_lt_iff fun i =>
      (h.length_globals i).trans (h'.length_globals i).symm
    refine List.ext_getElem hlength fun i hi hi' => ?_
    obtain ⟨-, index, -, -, -, hle⟩ := (h.length_globals i).1 hi
    have hindex : (UInt32.ofNat i).toNat = i :=
      UInt32.toNat_ofNat_of_lt' (Nat.lt_of_le_of_lt hle index.toNat_lt)
    have hentry := h.global?_eq h' (UInt32.ofNat i)
    rwa [global?, global?, hindex, List.getElem?_eq_getElem hi,
      List.getElem?_eq_getElem hi'] at hentry
  have hsymbol : snapshot.symbol = other.symbol := h.symbol_eq.trans h'.symbol_eq.symm
  cases snapshot
  cases other
  cases hmemory
  cases htable
  cases hglobals
  cases hsymbol
  rfl

theorem congr (hmem : ∀ entry, entry ∈ reordered.accessors symbol ↔ entry ∈ inst.accessors symbol)
    (h : snapshot.Shows symbol inst store) : snapshot.Shows symbol reordered store where
  memory words := by simpa only [hmem] using h.memory words
  length_table i := by simpa only [hmem] using h.length_table i
  table i index := by simpa only [Instance.Names, hmem] using h.table i index
  i64 index high low := by simpa only [Instance.Reads, hmem] using h.i64 index high low
  i32 index value := by
    simpa only [Instance.Reads, Instance.Has, hmem] using h.i32 index value
  length_globals i := by simpa only [Instance.Has, hmem] using h.length_globals i
  symbol_eq := h.symbol_eq

end Snapshot.Shows

namespace Instance

variable {symbol : String} {inst reordered : Instance} {store : Store}

theorem mem_accessors_of_perm (hperm : reordered.exports.Perm inst.exports)
    (entry : Accessor × Address) :
    entry ∈ reordered.accessors symbol ↔ entry ∈ inst.accessors symbol :=
  (hperm.filterMap _).mem_iff

theorem lacks_iff {index : UInt32} {accessor : Accessor} : inst.Lacks symbol index accessor ↔
    (inst.Has symbol (.i64GetterLow index) ∧ ¬ inst.Has symbol (.i64GetterHigh index)) ∧
      accessor = .i64GetterHigh index ∨
    (inst.Has symbol (.i64GetterHigh index) ∧ ¬ inst.Has symbol (.i64GetterLow index)) ∧
      accessor = .i64GetterLow index := by
  constructor
  · intro h
    cases h with
    | high low absent => exact .inl ⟨⟨low, absent⟩, rfl⟩
    | low high absent => exact .inr ⟨⟨high, absent⟩, rfl⟩
  · rintro (⟨⟨low, absent⟩, rfl⟩ | ⟨⟨high, absent⟩, rfl⟩)
    · exact .high low absent
    · exact .low high absent

theorem Lacks.unique {index : UInt32} {accessor other : Accessor}
    (h : inst.Lacks symbol index accessor) (h' : inst.Lacks symbol index other) :
    accessor = other := by
  cases h with
  | high low absent =>
    cases h' with
    | high => rfl
    | low high => exact absurd high absent
  | low high absent =>
    cases h' with
    | high low => exact absurd low absent
    | low => rfl

theorem Lacks.congr {index : UInt32} {accessor : Accessor}
    (hmem : ∀ entry, entry ∈ reordered.accessors symbol ↔ entry ∈ inst.accessors symbol)
    (h : inst.Lacks symbol index accessor) : reordered.Lacks symbol index accessor := by
  have hhas (accessor : Accessor) : inst.Has symbol accessor ↔ reordered.Has symbol accessor := by
    simp only [Has, hmem]
  cases h with
  | high low absent => exact .high ((hhas _).1 low) (mt (hhas _).2 absent)
  | low high absent => exact .low ((hhas _).1 high) (mt (hhas _).2 absent)

theorem LacksFirst.unique {index index' : UInt32} {accessor other : Accessor}
    (h : inst.LacksFirst symbol index accessor) (h' : inst.LacksFirst symbol index' other) :
    accessor = other := by
  obtain rfl := UInt32.le_antisymm (h.least h'.lacks) (h'.least h.lacks)
  exact h.lacks.unique h'.lacks

theorem LacksFirst.congr {index : UInt32} {accessor : Accessor}
    (hmem : ∀ entry, entry ∈ reordered.accessors symbol ↔ entry ∈ inst.accessors symbol)
    (h : inst.LacksFirst symbol index accessor) : reordered.LacksFirst symbol index accessor where
  lacks := h.lacks.congr hmem
  least hlacks := h.least (hlacks.congr fun entry => (hmem entry).symm)

namespace Legible

variable [Host]

theorem of_perm (h : inst.Legible symbol store) (hperm : reordered.exports.Perm inst.exports) :
    reordered.Legible symbol store where
  unambiguous := ((hperm.filterMap _).nodup_iff).2 h.unambiguous
  memory hmem := h.memory ((mem_accessors_of_perm hperm _).1 hmem)
  table hmem := h.table ((mem_accessors_of_perm hperm _).1 hmem)
  getters hmem := h.getters ((mem_accessors_of_perm hperm _).1 hmem)

variable (h : inst.Legible symbol store)

include h

theorem reading?_eq_some_iff {accessor : Accessor} (hreads : accessor.reads = true)
    {value : Int32} :
    inst.reading? symbol store accessor = some value ↔ inst.Reads symbol store accessor value := by
  simp only [reading?, Option.bind_eq_some_iff, h.accessor?_eq_some_iff hreads, Reads]
  refine exists_congr fun address => and_congr_right fun hmem => ?_
  obtain ⟨returned, hreturned, hrun⟩ := h.run_callGetter hmem hreads
  rw [hreturned, hrun, Option.some.injEq]
  constructor
  · rintro rfl
    rfl
  · rintro ⟨⟩
    rfl

theorem missing?_eq_some_iff {index : UInt32} {accessor : Accessor} :
    Capture.missing? (inst.reading? symbol store) index = some accessor ↔
      inst.Lacks symbol index accessor := by
  have hhigh : _ ↔ inst.Has symbol (.i64GetterHigh index) := h.isSome_reading?_iff rfl
  have hlow : _ ↔ inst.Has symbol (.i64GetterLow index) := h.isSome_reading?_iff rfl
  rw [Capture.missing?, Capture.missingHalf?_eq_some_iff, hhigh, hlow, lacks_iff]

theorem missing?_eq_none_iff {index : UInt32} :
    Capture.missing? (inst.reading? symbol store) index = none ↔
      ∀ accessor, ¬ inst.Lacks symbol index accessor := by
  simp only [Option.eq_none_iff_forall_ne_some, ne_eq, h.missing?_eq_some_iff]

/-- The globals of a snapshot, where no half is missing. -/
theorem value?_eq_i64_iff {index : UInt32} {high low : Int32} :
    Capture.value? (inst.reading? symbol store) index = some (.i64 high low) ↔
      inst.Reads symbol store (.i64GetterHigh index) high ∧
      inst.Reads symbol store (.i64GetterLow index) low := by
  rw [← h.reading?_eq_some_iff rfl, ← h.reading?_eq_some_iff rfl, Capture.value?]
  cases inst.reading? symbol store (.i64GetterHigh index) <;>
    cases inst.reading? symbol store (.i64GetterLow index) <;>
    simp [Capture.valueOf?]

theorem value?_eq_i32_iff {index : UInt32} {value : Int32} :
    Capture.value? (inst.reading? symbol store) index = some (.i32 value) ↔
      inst.Reads symbol store (.i32Getter index) value ∧
      ¬ (inst.Has symbol (.i64GetterHigh index) ∧ inst.Has symbol (.i64GetterLow index)) := by
  have hhigh : _ ↔ inst.Has symbol (.i64GetterHigh index) := h.isSome_reading?_iff rfl
  have hlow : _ ↔ inst.Has symbol (.i64GetterLow index) := h.isSome_reading?_iff rfl
  rw [← h.reading?_eq_some_iff rfl, ← hhigh, ← hlow, Capture.value?]
  cases inst.reading? symbol store (.i64GetterHigh index) <;>
    cases inst.reading? symbol store (.i64GetterLow index) <;>
    simp [Capture.valueOf?]

theorem isSome_value?_iff {index : UInt32}
    (hcomplete : ∀ accessor, ¬ inst.Lacks symbol index accessor) :
    (Capture.value? (inst.reading? symbol store) index).isSome = true ↔
      ∃ accessor, inst.Has symbol accessor ∧ accessor.reads = true ∧
        accessor.global? = some index := by
  have hmissing := h.missing?_eq_none_iff.2 hcomplete
  have hhigh : _ ↔ inst.Has symbol (.i64GetterHigh index) := h.isSome_reading?_iff rfl
  have hlow : _ ↔ inst.Has symbol (.i64GetterLow index) := h.isSome_reading?_iff rfl
  have hwhole : _ ↔ inst.Has symbol (.i32Getter index) := h.isSome_reading?_iff rfl
  have hany : (∃ accessor, inst.Has symbol accessor ∧ accessor.reads = true ∧
      accessor.global? = some index) ↔ inst.Has symbol (.i64GetterHigh index) ∨
        inst.Has symbol (.i64GetterLow index) ∨ inst.Has symbol (.i32Getter index) := by
    simp only [Accessor.reads_global_iff, and_or_left, exists_or, exists_eq_right]
  rw [hany, ← hhigh, ← hlow, ← hwhole]
  exact Capture.isSome_valueOf?_iff hmissing

/-- Capturing ends with the first half that is missing, or with the snapshot that shows the
instance. -/
theorem run_capture :
    (∃ index accessor, inst.LacksFirst symbol index accessor ∧
      store.run (Snapshot.capture symbol inst) =
        (.error (.missingExport (accessor.exportName symbol)), store)) ∨
    (∀ index accessor, ¬ inst.Lacks symbol index accessor) ∧
    ∃ snapshot, store.run (Snapshot.capture symbol inst) = (.ok snapshot, store) ∧
      snapshot.Shows symbol inst store := by
  obtain ⟨memory, hmemory, hwords⟩ := h.run_readMemory
  obtain ⟨entries, htable, hlength, hentries⟩ := h.run_readTable
  obtain ⟨readings, hreadings, hhold⟩ := h.run_readAccessors
  have hcapture : store.run (Snapshot.capture symbol inst) =
      (match readings.join symbol with
        | .ok globals => .ok { memory, table := entries, globals, symbol }
        | .error error => .error error, store) := by
    rw [Snapshot.capture, Store.run_bind_of_ok hmemory, Store.run_bind_of_ok htable,
      Store.run_bind_of_ok hreadings]
    cases readings.join symbol <;> rfl
  rcases hhold.join_cases symbol with
    ⟨index, accessor, hmissing, hsmaller, hjoin⟩ | ⟨hcomplete, globals, hjoin, hlists⟩
  · refine .inl ⟨index, accessor, ⟨h.missing?_eq_some_iff.1 hmissing, fun hlacks => ?_⟩,
      by rw [hcapture, hjoin]⟩
    by_contra hlt
    exact h.missing?_eq_none_iff.1 (hsmaller _ (UInt32.not_le.1 hlt)) _ hlacks
  · have hnone (index : UInt32) := h.missing?_eq_none_iff.1 (hcomplete index)
    refine .inr ⟨hnone, _, by rw [hcapture, hjoin], ⟨hwords, hlength, hentries, ?_, ?_, ?_, rfl⟩⟩
    · exact fun index high low => by
        rw [← h.value?_eq_i64_iff, ← hlists.getElem?]
        rfl
    · exact fun index value => by
        rw [← h.value?_eq_i32_iff, ← hlists.getElem?]
        rfl
    · intro i
      refine (hlists.lt_length_iff i).trans ?_
      refine (exists_congr fun index =>
        and_congr_right' (h.isSome_value?_iff (hnone index))).trans ?_
      constructor
      · rintro ⟨index, hle, accessor, hhas, hreads, hglobal⟩
        exact ⟨accessor, index, hhas, hreads, hglobal, hle⟩
      · rintro ⟨accessor, index, hhas, hreads, hglobal, hle⟩
        exact ⟨index, hle, accessor, hhas, hreads, hglobal⟩

end Legible

end Instance

/-- Capturing an instance gives the same in whatever order its exports stand: an error if one half of
a global is missing, which names it for the smallest index, or else the snapshot that shows the
instance. -/
theorem capture_determined [Host] {symbol : String} {inst : Instance} {store : Store}
    (h : inst.Legible symbol store) : ∃ outcome,
      (∀ exports : List (String × Extern), exports.Perm inst.exports →
        store.run (Snapshot.capture symbol { inst with exports }) = (outcome, store)) ∧
      (∀ error, outcome = .error error ↔ ∃ index accessor,
        inst.LacksFirst symbol index accessor ∧
        error = .missingExport (accessor.exportName symbol)) ∧
      ∀ snapshot, outcome = .ok snapshot ↔
        (∀ index accessor, ¬ inst.Lacks symbol index accessor) ∧
        snapshot.Shows symbol inst store := by
  rcases h.run_capture with ⟨index, accessor, hfirst, -⟩ | ⟨hnone, snapshot, -, hshows⟩
  · refine ⟨.error (.missingExport (accessor.exportName symbol)), fun exports hperm => ?_,
      fun error => ⟨?_, ?_⟩, fun snapshot => ⟨?_, ?_⟩⟩
    · have hmem (entry : Accessor × Address) :
          entry ∈ Instance.accessors symbol { inst with exports } ↔ entry ∈ inst.accessors symbol :=
        Instance.mem_accessors_of_perm hperm entry
      have hlegible : Instance.Legible symbol { inst with exports } store := h.of_perm hperm
      rcases hlegible.run_capture with
        ⟨other, lacked, hother, hrun⟩ | ⟨hnone, -⟩
      · rw [hrun, (hfirst.congr hmem).unique hother]
      · exact absurd (hfirst.lacks.congr hmem) (hnone index accessor)
    · rintro ⟨⟩
      exact ⟨index, accessor, hfirst, rfl⟩
    · rintro ⟨other, lacked, hother, rfl⟩
      rw [hfirst.unique hother]
    · rintro ⟨⟩
    · rintro ⟨hnone, -⟩
      exact absurd hfirst.lacks (hnone index accessor)
  · refine ⟨.ok snapshot, fun exports hperm => ?_, fun error => ⟨?_, ?_⟩, fun other => ⟨?_, ?_⟩⟩
    · have hmem (entry : Accessor × Address) :
          entry ∈ Instance.accessors symbol { inst with exports } ↔ entry ∈ inst.accessors symbol :=
        Instance.mem_accessors_of_perm hperm entry
      have hlegible : Instance.Legible symbol { inst with exports } store := h.of_perm hperm
      rcases hlegible.run_capture with
        ⟨index, accessor, hfirst, -⟩ | ⟨-, other, hrun, hother⟩
      · exact absurd (hfirst.lacks.congr fun entry => (hmem entry).symm) (hnone index accessor)
      · rw [hrun, (hshows.congr hmem).unique hother]
    · rintro ⟨⟩
    · rintro ⟨index, accessor, hfirst, -⟩
      exact absurd hfirst.lacks (hnone index accessor)
    · rintro ⟨⟩
      exact ⟨hnone, hshows⟩
    · rintro ⟨-, hother⟩
      rw [hshows.unique hother]

/-- Two functions of the host, an empty memory and a table of one slot. -/
def hostStore : Store where
  functions := #[.constant Signature.getter.type [.i32 7], .constant Signature.getter.type [.i32 9]]
  memories := #[⟨#[], none⟩]
  tables := #[⟨.func, #[some 1], none⟩]

/-- An instance without a module that exports a global as one of 64 bits and as one of 32 bits, a
function under two indices, and single halves of some globals. -/
def hostInstance (halves : List (String × Extern)) : Instance where
  scope := ⟨[], [], [], [], []⟩
  exports := halves ++ [("_global_getter_i64_0_low", .function 1),
    ("_global_getter_i32_0", .function 1), ("_memory", .memory 0),
    ("_global_getter_i64_0_high", .function 0), ("_table", .table 0), ("_func_5", .function 1),
    ("_func_2", .function 1)]

/-- Single halves of two globals. -/
def singleHalves : List (String × Extern) :=
  [("_global_getter_i64_3_low", .function 1), ("_global_getter_i64_2_high", .function 0)]

theorem legible_host {halves : List (String × Extern)}
    (hunambiguous : (hostInstance halves).Unambiguous "_")
    (h : ∀ entry ∈ (hostInstance halves).accessors "_",
      (entry.1 = .memory → hostStore.memories[entry.2]?.isSome = true) ∧
      (entry.1 = .table → hostStore.tables[entry.2]?.isSome = true) ∧
      (entry.1.reads = true → hostStore.run (Run.callTyped Signature.getter.type entry.2 []) =
        (.ok [.i32 (7 + 2 * UInt32.ofNat entry.2)], hostStore))) :
    (hostInstance halves).Legible "_" hostStore where
  unambiguous := hunambiguous
  memory hmem := Option.isSome_iff_exists.1 ((h _ hmem).1 rfl)
  table hmem := Option.isSome_iff_exists.1 ((h _ hmem).2.1 rfl)
  getters hmem hreads := ⟨_, (h _ hmem).2.2 hreads⟩

/-- Without single halves the instance is captured, and with two of them the smaller index is the one
that is named, in every order of the exports. -/
theorem capture_determined_host :
    (∀ exports : List (String × Extern), exports.Perm (hostInstance []).exports →
      hostStore.run (Snapshot.capture "_" { hostInstance [] with exports }) =
        (.ok ⟨some #[], [some 5], [some (.i64 7 9)], "_"⟩, hostStore)) ∧
    ∀ exports : List (String × Extern), exports.Perm (hostInstance singleHalves).exports →
      hostStore.run (Snapshot.capture "_" { hostInstance singleHalves with exports }) =
        (.error (.missingExport "_global_getter_i64_2_low"), hostStore) := by
  have hall {halves : List (String × Extern)} {outcome : Except AccessError Snapshot}
      (hlegible : (hostInstance halves).Legible "_" hostStore)
      (hcaptured : hostStore.run (Snapshot.capture "_" (hostInstance halves)) =
        (outcome, hostStore))
      (exports : List (String × Extern)) (hperm : exports.Perm (hostInstance halves).exports) :
      hostStore.run (Snapshot.capture "_" { hostInstance halves with exports }) =
        (outcome, hostStore) := by
    obtain ⟨same, hruns, -⟩ := capture_determined hlegible
    have hrun : hostStore.run (Snapshot.capture "_" (hostInstance halves)) = (same, hostStore) :=
      hruns _ (List.Perm.refl _)
    rw [hruns exports hperm, ← hrun, hcaptured]
  refine ⟨hall (legible_host ?_ ?_) ?_, hall (legible_host ?_ ?_) ?_⟩
  · unfold Instance.Unambiguous
    decide +kernel
  · decide +kernel
  · decide +kernel
  · unfold Instance.Unambiguous
    decide +kernel
  · decide +kernel
  · decide +kernel

end WasmSnapshot
