import Mathlib.Data.List.Nodup
import WasmSnapshot.Proofs.Accessor.Exports

/-! What an accessor is looked up as, among the exports of any instance. The exports whose names are
read as an accessor and whose items are of its kind are its candidates, in the order of the exports.
Of the memories, the tables and the functions under one index the last candidate is looked up, and of
the functions that serve as one accessor of a global the first. Where no accessor has two candidates,
the order of the exports does not matter. -/

namespace WasmSnapshot

/-- The address of an item, if the item is of the kind that an accessor is. -/
def Accessor.target? : Accessor → Extern → Option Address
  | .memory, .memory address | .table, .table address => some address
  | .function _, .function address | .i32Getter _, .function address
  | .i32Setter _, .function address | .i64GetterHigh _, .function address
  | .i64GetterLow _, .function address | .i64Setter _, .function address => some address
  | _, _ => none

namespace AccessorExports

variable {symbol : String} {exports : AccessorExports}

/-- The accessor that an export is, with the address of its item. -/
def recognize? (symbol : String) (entry : String × Extern) : Option (Accessor × Address) := do
  let accessor ← Accessor.ofExportName? symbol entry.1
  (accessor, ·) <$> accessor.target? entry.2

/-- Takes in an accessor. -/
def take (exports : AccessorExports) (entry : Accessor × Address) : AccessorExports :=
  match entry.1 with
  | .memory => { exports with memory := some entry.2 }
  | .table => { exports with table := some entry.2 }
  | .function index => { exports with functions := exports.functions.insert index entry.2 }
  | _ => { exports with globals := exports.globals ++ [entry] }

/-- The address that an accessor is looked up as. -/
def resolve? (exports : AccessorExports) : Accessor → Option Address
  | .memory => exports.memory
  | .table => exports.table
  | .function index => exports.functions.get? index
  | accessor => exports.accessor? accessor

theorem add_eq (entry : String × Extern) :
    add symbol exports entry = match recognize? symbol entry with
      | some found => exports.take found
      | none => exports := by
  obtain ⟨name, item⟩ := entry
  rw [add, recognize?]
  cases Accessor.ofExportName? symbol name with
  | none => rfl
  | some accessor => cases accessor <;> cases item <;> rfl

theorem recognize?_eq_some_iff {name : String} {item : Extern} {accessor : Accessor}
    {address : Address} : recognize? symbol (name, item) = some (accessor, address) ↔
      Accessor.ofExportName? symbol name = some accessor ∧ accessor.target? item = some address := by
  simp only [recognize?, Option.bind_eq_bind, Option.bind_eq_some_iff, Option.map_eq_map,
    Option.map_eq_some_iff, Prod.mk.injEq]
  constructor
  · rintro ⟨accessor, hname, address, htarget, rfl, rfl⟩
    exact ⟨hname, htarget⟩
  · rintro ⟨hname, htarget⟩
    exact ⟨accessor, hname, address, htarget, rfl, rfl⟩

/-- The addresses of an accessor, in a list of accessors. -/
def candidates (entries : List (Accessor × Address)) (accessor : Accessor) : List Address :=
  entries.filterMap fun entry => if entry.1 = accessor then some entry.2 else none

theorem mem_candidates {entries : List (Accessor × Address)} {accessor : Accessor}
    {address : Address} : address ∈ candidates entries accessor ↔ (accessor, address) ∈ entries := by
  simp only [candidates, List.mem_filterMap, Option.ite_none_right_eq_some, Option.some.injEq]
  constructor
  · rintro ⟨⟨_, _⟩, hmem, rfl, rfl⟩
    exact hmem
  · intro hmem
    exact ⟨_, hmem, rfl, rfl⟩

theorem candidates_cons_self (accessor : Accessor) (address : Address)
    (entries : List (Accessor × Address)) :
    candidates ((accessor, address) :: entries) accessor = address :: candidates entries accessor :=
  List.filterMap_cons_some (if_pos rfl)

theorem candidates_cons_ne {entry : Accessor × Address} {accessor : Accessor}
    (h : entry.1 ≠ accessor) (entries : List (Accessor × Address)) :
    candidates (entry :: entries) accessor = candidates entries accessor :=
  List.filterMap_cons_none (if_neg h)

theorem candidates_append (before after : List (Accessor × Address)) (accessor : Accessor) :
    candidates (before ++ after) accessor =
      candidates before accessor ++ candidates after accessor :=
  List.filterMap_append

/-- What a lookup in a list that grows at its end gives: the last value taken in, if there is one. -/
theorem getLast?_cons_or {α : Type} (a : α) (list : List α) (before : Option α) :
    (a :: list).getLast?.or before = list.getLast?.or (some a) := by
  rw [List.getLast?_cons]
  cases list.getLast? <;> rfl

/-- One accessor more. Of those that are no global's, the one that is taken in takes the place of the
one before it. -/
theorem resolve?_take {accessor : Accessor} (h : accessor.global? = none)
    (entry : Accessor × Address) : (exports.take entry).resolve? accessor =
      if entry.1 = accessor then some entry.2 else exports.resolve? accessor := by
  obtain ⟨other, address⟩ := entry
  cases accessor with
  | memory | table => cases other <;> rfl
  | function index =>
    cases other with
    | function other => simp [take, resolve?, IndexMap.get?_insert, eq_comm]
    | _ => rfl
  | i32Getter | i32Setter | i64GetterHigh | i64GetterLow | i64Setter => cases h

theorem resolve?_foldl_take {accessor : Accessor} (h : accessor.global? = none)
    (entries : List (Accessor × Address)) : (entries.foldl take exports).resolve? accessor =
      (candidates entries accessor).getLast?.or (exports.resolve? accessor) := by
  induction entries generalizing exports with
  | nil => rfl
  | cons entry entries ih =>
    obtain ⟨other, address⟩ := entry
    rw [List.foldl_cons, ih, resolve?_take h]
    by_cases heq : other = accessor
    · subst heq
      rw [if_pos rfl, candidates_cons_self, getLast?_cons_or]
    · rw [if_neg heq, candidates_cons_ne heq]

theorem globals_foldl_take (entries : List (Accessor × Address)) :
    (entries.foldl take exports).globals =
      exports.globals ++ entries.filter fun entry => entry.1.global?.isSome := by
  induction entries generalizing exports with
  | nil => exact (List.append_nil _).symm
  | cons entry entries ih =>
    obtain ⟨accessor, address⟩ := entry
    rw [List.foldl_cons, ih]
    cases accessor with
    | memory | table | function => rfl
    | i32Getter | i32Setter | i64GetterHigh | i64GetterLow | i64Setter =>
      simp [take, Accessor.global?]

theorem lookup_eq_head?_candidates (entries : List (Accessor × Address)) (accessor : Accessor) :
    entries.lookup accessor = (candidates entries accessor).head? := by
  induction entries with
  | nil => rfl
  | cons entry entries ih =>
    obtain ⟨other, address⟩ := entry
    by_cases heq : other = accessor
    · subst heq
      rw [List.lookup_cons_self, candidates_cons_self]
      rfl
    · rw [List.lookup_cons, beq_false_of_ne (Ne.symm heq), candidates_cons_ne heq]
      exact ih

theorem candidates_filter_global {accessor : Accessor} (h : accessor.global?.isSome = true)
    (entries : List (Accessor × Address)) :
    candidates (entries.filter fun entry => entry.1.global?.isSome) accessor =
      candidates entries accessor := by
  rw [candidates, candidates, List.filterMap_filter]
  congr 1
  funext entry
  by_cases heq : entry.1 = accessor
  · simp [heq, h]
  · simp [heq]

/-- An accessor that is listed once has one candidate at most. -/
theorem length_candidates_le {entries : List (Accessor × Address)}
    (hnodup : (entries.map (·.1)).Nodup) (accessor : Accessor) :
    (candidates entries accessor).length ≤ 1 := by
  induction entries with
  | nil => exact Nat.zero_le _
  | cons entry entries ih =>
    obtain ⟨other, address⟩ := entry
    rw [List.map_cons, List.nodup_cons] at hnodup
    by_cases heq : other = accessor
    · subst heq
      have hnil : candidates entries other = [] := by
        refine List.eq_nil_iff_forall_not_mem.2 fun address hmem => hnodup.1 ?_
        exact List.mem_map.2 ⟨_, mem_candidates.1 hmem, rfl⟩
      rw [candidates_cons_self, hnil]
      exact Nat.le_refl 1
    · rw [candidates_cons_ne heq]
      exact ih hnodup.2

theorem candidates_eq_singleton {entries : List (Accessor × Address)} {accessor : Accessor}
    {address : Address} (hnodup : (entries.map (·.1)).Nodup)
    (hmem : (accessor, address) ∈ entries) : candidates entries accessor = [address] := by
  have hcandidate := mem_candidates.2 hmem
  obtain ⟨only, heq⟩ := List.length_eq_one_iff.1
    (Nat.le_antisymm (length_candidates_le hnodup accessor) (List.length_pos_of_mem hcandidate))
  rw [heq, List.mem_singleton] at hcandidate
  rw [heq, hcandidate]

/-- So the first candidate is the last one, too. -/
theorem getLast?_candidates {entries : List (Accessor × Address)}
    (hnodup : (entries.map (·.1)).Nodup) (accessor : Accessor) :
    (candidates entries accessor).getLast? = (candidates entries accessor).head? := by
  cases hcandidates : candidates entries accessor with
  | nil => rfl
  | cons address rest =>
    have hmem : (accessor, address) ∈ entries := by
      rw [← mem_candidates, hcandidates]
      exact List.mem_cons_self
    rw [candidates_eq_singleton hnodup hmem] at hcandidates
    cases hcandidates
    rfl

/-- The accessors are among those that the names are read as. An export of another kind than its name
says is left out. -/
theorem sublist_accessors (symbol : String) (exports : List (String × Extern)) :
    ((exports.filterMap (recognize? symbol)).map (·.1)).Sublist
      (exports.filterMap fun entry => Accessor.ofExportName? symbol entry.1) := by
  rw [List.map_filterMap]
  induction exports with
  | nil => exact .slnil
  | cons entry exports ih =>
    cases hname : Accessor.ofExportName? symbol entry.1 with
    | none => simpa [recognize?, hname] using ih
    | some accessor =>
      cases htarget : accessor.target? entry.2 with
      | none => simpa [recognize?, hname, htarget] using ih.cons accessor
      | some address => simpa [recognize?, hname, htarget] using ih.cons_cons accessor

end AccessorExports

namespace Instance

variable {symbol : String} {inst : Instance}

/-- The exports that are read as accessors, in their order. -/
def accessors (symbol : String) (inst : Instance) : List (Accessor × Address) :=
  inst.exports.filterMap (AccessorExports.recognize? symbol)

/-- The addresses of the exports that are read as an accessor, in the order of the exports. -/
def candidates (symbol : String) (inst : Instance) (accessor : Accessor) : List Address :=
  AccessorExports.candidates (inst.accessors symbol) accessor

theorem ofInstance_eq_foldl_take :
    AccessorExports.ofInstance symbol inst =
      (inst.accessors symbol).foldl AccessorExports.take {} := by
  rw [AccessorExports.ofInstance, accessors, List.foldl_filterMap]
  congr 1
  funext exports entry
  rw [AccessorExports.add_eq]
  cases AccessorExports.recognize? symbol entry <;> rfl

theorem globals_ofInstance : (AccessorExports.ofInstance symbol inst).globals =
    (inst.accessors symbol).filter fun entry => entry.1.global?.isSome := by
  rw [ofInstance_eq_foldl_take, AccessorExports.globals_foldl_take]
  rfl

theorem mem_globals_ofInstance {accessor : Accessor} {address : Address} :
    (accessor, address) ∈ (AccessorExports.ofInstance symbol inst).globals ↔
      (accessor, address) ∈ inst.accessors symbol ∧ accessor.global?.isSome = true := by
  rw [globals_ofInstance, List.mem_filter]

/-- The candidate that an accessor is looked up as. -/
theorem resolve?_ofInstance (accessor : Accessor) :
    (AccessorExports.ofInstance symbol inst).resolve? accessor =
      if accessor.global?.isSome then (inst.candidates symbol accessor).head?
      else (inst.candidates symbol accessor).getLast? := by
  have hfirst (h : accessor.global?.isSome = true) :
      (AccessorExports.ofInstance symbol inst).accessor? accessor =
        (inst.candidates symbol accessor).head? := by
    rw [AccessorExports.accessor?, globals_ofInstance, AccessorExports.lookup_eq_head?_candidates,
      AccessorExports.candidates_filter_global h]
    rfl
  have hlast (h : accessor.global? = none) :
      (AccessorExports.ofInstance symbol inst).resolve? accessor =
        (inst.candidates symbol accessor).getLast?.or (AccessorExports.resolve? {} accessor) := by
    rw [ofInstance_eq_foldl_take, AccessorExports.resolve?_foldl_take h]
    rfl
  cases accessor with
  | memory | table | function => exact (hlast rfl).trans Option.or_none
  | i32Getter | i32Setter | i64GetterHigh | i64GetterLow | i64Setter => exact hfirst rfl

/-- No two exports are read as the same accessor. -/
def Unambiguous (symbol : String) (inst : Instance) : Prop :=
  (inst.exports.filterMap fun entry => Accessor.ofExportName? symbol entry.1).Nodup

namespace Unambiguous

variable (h : inst.Unambiguous symbol)

include h

theorem nodup_accessors : ((inst.accessors symbol).map (·.1)).Nodup :=
  List.Nodup.sublist (AccessorExports.sublist_accessors symbol inst.exports) h

theorem address_unique {accessor : Accessor} {a b : Address}
    (ha : (accessor, a) ∈ inst.accessors symbol) (hb : (accessor, b) ∈ inst.accessors symbol) :
    a = b :=
  congrArg Prod.snd (List.inj_on_of_nodup_map h.nodup_accessors ha hb rfl)

theorem resolve?_eq_some_iff {accessor : Accessor} {address : Address} :
    (AccessorExports.ofInstance symbol inst).resolve? accessor = some address ↔
      (accessor, address) ∈ inst.accessors symbol := by
  have hends : (inst.candidates symbol accessor).getLast? =
      (inst.candidates symbol accessor).head? :=
    AccessorExports.getLast?_candidates h.nodup_accessors accessor
  rw [resolve?_ofInstance, hends, ite_self]
  constructor
  · intro hfirst
    exact AccessorExports.mem_candidates.1 (List.mem_of_head? hfirst)
  · intro hmem
    rw [candidates, AccessorExports.candidates_eq_singleton h.nodup_accessors hmem]
    rfl

theorem memory_eq_some_iff {address : Address} :
    (AccessorExports.ofInstance symbol inst).memory = some address ↔
      (Accessor.memory, address) ∈ inst.accessors symbol := by
  rw [← h.resolve?_eq_some_iff]
  rfl

theorem table_eq_some_iff {address : Address} :
    (AccessorExports.ofInstance symbol inst).table = some address ↔
      (Accessor.table, address) ∈ inst.accessors symbol := by
  rw [← h.resolve?_eq_some_iff]
  rfl

theorem mem_functions_iff {index : UInt32} {address : Address} :
    (index, address) ∈ (AccessorExports.ofInstance symbol inst).functions.entries ↔
      (Accessor.function index, address) ∈ inst.accessors symbol := by
  rw [← IndexMap.get?_eq_some_iff, ← h.resolve?_eq_some_iff]
  rfl

end Unambiguous

end Instance

end WasmSnapshot
