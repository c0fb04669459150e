import WasmSnapshot.Proofs.Accessor.Resolved
import WasmSnapshot.Proofs.Snapshot.Capture

/-! What has been read of the globals of an instance, once some getters have been called, whatever
their functions are. It is told by the last call of each accessor. Joining the halves ends at the
smallest index that one half has been read of and not the other. -/

namespace WasmSnapshot

/-- Whether an accessor reads a global or a half of one. -/
def Accessor.reads : Accessor → Bool
  | .i32Getter _ | .i64GetterHigh _ | .i64GetterLow _ => true
  | .memory | .table | .function _ | .i32Setter _ | .i64Setter _ => false

/-- A global is read through one of three accessors. -/
theorem Accessor.reads_global_iff {accessor : Accessor} {index : UInt32} :
    accessor.reads = true ∧ accessor.global? = some index ↔ accessor = .i64GetterHigh index ∨
      accessor = .i64GetterLow index ∨ accessor = .i32Getter index := by
  cases accessor <;> simp [reads, global?]

namespace Capture

variable {store : Store} {readings : Readings} {read other : Accessor → Option Int32}
  {value : Address → Int32} {entries : List (Accessor × Address)}

/-- The halves of a global, if one of them has been read. -/
def halvesOf? (high low : Option Int32) : Option Halves :=
  if high.isSome || low.isSome then some ⟨high, low⟩ else none

theorem getD_halvesOf? (high low : Option Int32) : (halvesOf? high low).getD {} = ⟨high, low⟩ := by
  cases high <;> cases low <;> rfl

/-- The readings are those of the accessors, as far as these have been called. -/
structure Readings.Hold (readings : Readings) (read : Accessor → Option Int32) : Prop where
  globals : Snapshot.Lists readings.globals fun index => .i32 <$> read (.i32Getter index)
  halves (index : UInt32) : readings.halves.get? index =
    halvesOf? (read (.i64GetterHigh index)) (read (.i64GetterLow index))

theorem Readings.Hold.congr (h : readings.Hold read)
    (heq : ∀ accessor, accessor.reads = true → read accessor = other accessor) :
    readings.Hold other where
  globals := h.globals.congr fun index => by rw [heq (.i32Getter index) rfl]
  halves index := by
    rw [h.halves, heq (.i64GetterHigh index) rfl, heq (.i64GetterLow index) rfl]

/-- One call of an accessor. -/
theorem run_readAccessor_hold [Host] {accessor : Accessor} {address : Address} (h : readings.Hold read)
    (hcall : accessor.reads = true →
      store.run (callGetter address) = (.ok (value address), store)) :
    ∃ next, store.run (readAccessor readings (accessor, address)) = (.ok next, store) ∧
      next.Hold fun b => if b = accessor then some (value address) else read b := by
  cases accessor with
  | i32Getter index =>
    refine ⟨_, Store.run_bind_of_ok (hcall rfl), ?_, fun j => ?_⟩
    · refine (h.globals.setAt index (.i32 (value address))).congr fun j => ?_
      by_cases heq : j = index <;> simp [heq]
    · simpa using h.halves j
  | i64GetterHigh index =>
    refine ⟨_, Store.run_bind_of_ok (hcall rfl), h.globals.congr fun j => by simp, fun j => ?_⟩
    simp only [Readings.addHalf, IndexMap.get?_insert, h.halves]
    by_cases heq : j = index
    · subst heq
      rw [if_pos rfl, getD_halvesOf?]
      simp [halvesOf?]
    · simp [heq]
  | i64GetterLow index =>
    refine ⟨_, Store.run_bind_of_ok (hcall rfl), h.globals.congr fun j => by simp, fun j => ?_⟩
    simp only [Readings.addHalf, IndexMap.get?_insert, h.halves]
    by_cases heq : j = index
    · subst heq
      rw [if_pos rfl, getD_halvesOf?]
      simp [halvesOf?]
    · simp [heq]
  | memory | table | function index | i32Setter index | i64Setter index =>
    refine ⟨readings, rfl, h.congr fun b hreads => ?_⟩
    rw [if_neg]
    rintro rfl
    cases hreads

/-- What the last call of an accessor has returned. -/
def lastRead (value : Address → Int32) (entries : List (Accessor × Address))
    (accessor : Accessor) : Option Int32 :=
  (AccessorExports.candidates entries accessor).getLast?.map value

theorem lastRead_concat (accessor : Accessor) (address : Address) (b : Accessor) :
    lastRead value (entries ++ [(accessor, address)]) b =
      if b = accessor then some (value address) else lastRead value entries b := by
  rw [lastRead, AccessorExports.candidates_append]
  by_cases heq : b = accessor
  · subst heq
    rw [AccessorExports.candidates_cons_self, if_pos rfl, List.getLast?_append]
    rfl
  · have hnil : AccessorExports.candidates [(accessor, address)] b = [] :=
      AccessorExports.candidates_cons_ne (Ne.symm heq) []
    rw [hnil, List.append_nil, if_neg heq, lastRead]

/-- The calls of all accessors, in the order of the exports. -/
theorem run_readAccessors_hold [Host] {called : List (Accessor × Address)}
    (h : readings.Hold (lastRead value called))
    (hcalls : ∀ entry ∈ entries, entry.1.reads = true →
      store.run (callGetter entry.2) = (.ok (value entry.2), store)) :
    ∃ next, store.run (entries.foldlM readAccessor readings) = (.ok next, store) ∧
      next.Hold (lastRead value (called ++ entries)) := by
  induction entries generalizing readings called with
  | nil => exact ⟨readings, rfl, by rwa [List.append_nil]⟩
  | cons entry entries ih =>
    obtain ⟨accessor, address⟩ := entry
    obtain ⟨first, hfirst, hhold⟩ :=
      run_readAccessor_hold h (hcalls (accessor, address) List.mem_cons_self)
    have hconcat : first.Hold (lastRead value (called ++ [(accessor, address)])) :=
      hhold.congr fun b _ => (lastRead_concat accessor address b).symm
    obtain ⟨last, hlast, hhold⟩ :=
      ih hconcat fun entry hmem => hcalls entry (List.mem_cons_of_mem _ hmem)
    refine ⟨last, ?_, by rwa [List.append_assoc] at hhold⟩
    rw [List.foldlM_cons, Store.run_bind_of_ok hfirst, hlast]

theorem hold_nil : ({} : Readings).Hold (lastRead value []) where
  globals := Snapshot.Lists.nil
  halves _ := rfl

/-! ### Joining the halves -/

/-- The half of a global that is missing, if the other one is there. -/
def missingHalf? (index : UInt32) (high low : Option Int32) : Option Accessor :=
  match high, low with
  | none, some _ => some (.i64GetterHigh index)
  | some _, none => some (.i64GetterLow index)
  | _, _ => none

/-- The value of a global, by what its getters have returned. The halves come before a getter of a
global of 32 bits. -/
def valueOf? (high low whole : Option Int32) : Option GlobalValue :=
  match high, low with
  | some high, some low => some (.i64 high low)
  | _, _ => .i32 <$> whole

theorem missingHalf?_eq_some_iff {index : UInt32} {high low : Option Int32} {accessor : Accessor} :
    missingHalf? index high low = some accessor ↔
      (low.isSome = true ∧ ¬ high.isSome = true) ∧ accessor = .i64GetterHigh index ∨
      (high.isSome = true ∧ ¬ low.isSome = true) ∧ accessor = .i64GetterLow index := by
  cases high <;> cases low <;> simp [missingHalf?, eq_comm]

/-- Where no half is missing, one half will do. -/
theorem isSome_valueOf?_iff {index : UInt32} {high low whole : Option Int32}
    (h : missingHalf? index high low = none) :
    (valueOf? high low whole).isSome = true ↔
      high.isSome = true ∨ low.isSome = true ∨ whole.isSome = true := by
  cases high with
  | none =>
    cases low with
    | none => cases whole <;> simp [valueOf?]
    | some low => cases h
  | some high =>
    cases low with
    | none => cases h
    | some low => simp [valueOf?]

theorem halvesOf?_eq_some_iff {high low : Option Int32} {halves : Halves} :
    halvesOf? high low = some halves ↔
      (high.isSome = true ∨ low.isSome = true) ∧ halves = ⟨high, low⟩ := by
  rw [halvesOf?]
  cases high <;> cases low <;> simp [eq_comm]

/-- Joining ends at the first global of which a half is missing. -/
theorem joinHalves_cases (symbol : String) {pairs : List (UInt32 × Halves)}
    {globals : List (Option GlobalValue)} {f : UInt32 → Option GlobalValue}
    (hpairs : ∀ pair ∈ pairs, pair.2.high.isSome = true ∨ pair.2.low.isSome = true)
    (hnodup : (pairs.map (·.1)).Nodup) (h : Snapshot.Lists globals f) :
    (∃ before index halves rest accessor, pairs = before ++ (index, halves) :: rest ∧
      (∀ pair ∈ before, missingHalf? pair.1 pair.2.high pair.2.low = none) ∧
      missingHalf? index halves.high halves.low = some accessor ∧
      pairs.foldlM (joinHalves symbol) globals =
        .error (.missingExport (accessor.exportName symbol))) ∨
    (∀ pair ∈ pairs, missingHalf? pair.1 pair.2.high pair.2.low = none) ∧
    ∃ joined, pairs.foldlM (joinHalves symbol) globals = .ok joined ∧
      Snapshot.Lists joined fun index => match pairs.lookup index with
        | some halves => valueOf? halves.high halves.low none
        | none => f index := by
  induction pairs generalizing globals f with
  | nil => exact .inr ⟨List.forall_mem_nil _, globals, rfl, h⟩
  | cons pair pairs ih =>
    obtain ⟨index, high, low⟩ := pair
    obtain ⟨habsent, hdistinct⟩ := List.nodup_cons.1 hnodup
    have hrest := fun pair hmem => hpairs pair (List.mem_cons_of_mem _ hmem)
    cases high with
    | none =>
      cases low with
      | none => simpa using hpairs _ List.mem_cons_self
      | some low =>
        exact .inl ⟨[], index, ⟨none, some low⟩, pairs, .i64GetterHigh index, rfl,
          List.forall_mem_nil _, rfl, rfl⟩
    | some high =>
      cases low with
      | none =>
        exact .inl ⟨[], index, ⟨some high, none⟩, pairs, .i64GetterLow index, rfl,
          List.forall_mem_nil _, rfl, rfl⟩
      | some low =>
        rcases ih hrest hdistinct (h.setAt index (.i64 high low)) with
          ⟨before, later, halves, rest, accessor, rfl, hbefore, hmissing, hrun⟩ |
          ⟨hall, joined, hrun, hlists⟩
        · exact .inl ⟨_, later, halves, rest, accessor, rfl,
            List.forall_mem_cons.2 ⟨rfl, hbefore⟩, hmissing, hrun⟩
        · refine .inr ⟨List.forall_mem_cons.2 ⟨rfl, hall⟩, joined, hrun, hlists.congr fun j => ?_⟩
          by_cases heq : j = index
          · subst heq
            have hnone : pairs.lookup j = none := by
              refine List.lookup_eq_none_iff.2 fun pair hmem => ?_
              rw [bne_iff_ne]
              exact fun heq => habsent (List.mem_map.2 ⟨pair, hmem, heq.symm⟩)
            rw [hnone, List.lookup_cons_self, if_pos rfl]
            rfl
          · rw [List.lookup_cons, beq_false_of_ne heq, if_neg heq]

/-- The half of a global that is missing, by what has been read. -/
def missing? (read : Accessor → Option Int32) (index : UInt32) : Option Accessor :=
  missingHalf? index (read (.i64GetterHigh index)) (read (.i64GetterLow index))

/-- The value of a global, by what has been read. -/
def value? (read : Accessor → Option Int32) (index : UInt32) : Option GlobalValue :=
  valueOf? (read (.i64GetterHigh index)) (read (.i64GetterLow index)) (read (.i32Getter index))

theorem Readings.Hold.mem_halves_iff (h : readings.Hold read) {index : UInt32} {halves : Halves} :
    (index, halves) ∈ readings.halves.entries ↔
      ((read (.i64GetterHigh index)).isSome = true ∨ (read (.i64GetterLow index)).isSome = true) ∧
      halves = ⟨read (.i64GetterHigh index), read (.i64GetterLow index)⟩ := by
  rw [← IndexMap.get?_eq_some_iff, h.halves, halvesOf?_eq_some_iff]

theorem Readings.Hold.missing?_eq_none (h : readings.Hold read) {index : UInt32}
    (hpairs : ∀ pair ∈ readings.halves.entries, pair.1 = index →
      missingHalf? pair.1 pair.2.high pair.2.low = none) : missing? read index = none := by
  by_cases hsome : (read (.i64GetterHigh index)).isSome = true ∨
      (read (.i64GetterLow index)).isSome = true
  · exact hpairs (index, ⟨read (.i64GetterHigh index), read (.i64GetterLow index)⟩)
      (h.mem_halves_iff.2 ⟨hsome, rfl⟩) rfl
  · rw [not_or, Option.not_isSome_iff_eq_none, Option.not_isSome_iff_eq_none] at hsome
    rw [missing?, hsome.1, hsome.2]
    rfl

/-- The values of the globals are put together, up to the smallest index with one half only. -/
theorem Readings.Hold.join_cases (h : readings.Hold read) (symbol : String) :
    (∃ index accessor, missing? read index = some accessor ∧
      (∀ smaller < index, missing? read smaller = none) ∧
      readings.join symbol = .error (.missingExport (accessor.exportName symbol))) ∨
    (∀ index, missing? read index = none) ∧
    ∃ globals, readings.join symbol = .ok globals ∧ Snapshot.Lists globals (value? read) := by
  have hpairs : ∀ pair ∈ readings.halves.entries,
      pair.2.high.isSome = true ∨ pair.2.low.isSome = true := by
    rintro ⟨index, halves⟩ hmem
    obtain ⟨hsome, rfl⟩ := h.mem_halves_iff.1 hmem
    exact hsome
  have hnodup : (readings.halves.entries.map (·.1)).Nodup := by
    refine List.pairwise_map.2 (readings.halves.ascending.imp fun hlt heq => ?_)
    rw [heq] at hlt
    exact UInt32.lt_irrefl _ hlt
  rcases joinHalves_cases symbol hpairs hnodup h.globals with
    ⟨before, index, halves, rest, accessor, hentries, hbefore, hmissing, hrun⟩ |
    ⟨hall, joined, hrun, hlists⟩
  · have hmem : (index, halves) ∈ readings.halves.entries := by rw [hentries]; simp
    obtain ⟨-, rfl⟩ := h.mem_halves_iff.1 hmem
    refine .inl ⟨index, accessor, hmissing, fun smaller hlt => ?_, hrun⟩
    refine h.missing?_eq_none fun pair hpair heq => hbefore pair ?_
    -- The entries stand in ascending order, so that of a smaller index is among the ones before.
    have hascending := readings.halves.ascending
    rw [hentries] at hpair hascending
    subst heq
    rcases List.mem_append.1 hpair with hpair | hpair
    · exact hpair
    · rcases List.mem_cons.1 hpair with rfl | hrest
      · exact absurd hlt (UInt32.lt_irrefl _)
      · have hgt := List.rel_of_pairwise_cons (List.pairwise_append.1 hascending).2.1 hrest
        exact absurd (UInt32.lt_trans hlt hgt) (UInt32.lt_irrefl _)
  · have hnone (index : UInt32) : missing? read index = none :=
      h.missing?_eq_none fun pair hpair _ => hall pair hpair
    refine .inr ⟨hnone, joined, hrun, hlists.congr fun index => ?_⟩
    have hlookup : readings.halves.entries.lookup index = halvesOf? _ _ := h.halves index
    have hcomplete := hnone index
    rw [missing?] at hcomplete
    rw [hlookup, value?]
    cases hhigh : read (.i64GetterHigh index) with
    | none =>
      cases hlow : read (.i64GetterLow index) with
      | none => rfl
      | some low => rw [hhigh, hlow] at hcomplete; cases hcomplete
    | some high =>
      cases hlow : read (.i64GetterLow index) with
      | none => rw [hhigh, hlow] at hcomplete; cases hcomplete
      | some low => rfl

end Capture

end WasmSnapshot
