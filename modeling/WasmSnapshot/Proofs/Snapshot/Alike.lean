import WasmSnapshot.Proofs.Snapshot.Capture

/-! Which states of an instance look alike to a capture: those with the same exposed memory, the same
functions of the module in the slots of an exposed table, and the same values of the exposed globals.
Foreign functions in the table may differ, and whatever is not exposed. One snapshot describes two
states if and only if they are alike. -/

namespace WasmSnapshot

variable {selection : Selection} {symbol : String} {original : Declarations} {inst : Instance}
  {store before after : Store} {snapshot : Snapshot}

/-- A slot of the exposed table holds the function of the module that has the index. -/
def Instance.Holds (inst : Instance) (selection : Selection) (original : Declarations) (store : Store)
    (slot : Nat) (index : UInt32) : Prop :=
  ∃ table address, inst.exposedTable? selection original store = some table ∧
    table.function? slot = some address ∧ original.OwnFunction inst.scope index address

/-- What is exposed of the instance is the same in both stores, as far as snapshots go. -/
structure Instance.Alike (selection : Selection) (original : Declarations) (inst : Instance)
    (before after : Store) : Prop where
  pages : (inst.exposedMemory? selection original after).map (·.pages) =
    (inst.exposedMemory? selection original before).map (·.pages)
  slots_size : (inst.exposedTable? selection original after).map (·.slots.size) =
    (inst.exposedTable? selection original before).map (·.slots.size)
  slots (slot : Nat) (index : UInt32) : inst.Holds selection original after slot index ↔
    inst.Holds selection original before slot index
  globals {index : UInt32} :
    (selection.exposed? original.imports original.globals index).isSome = true →
    inst.value? after index = inst.value? before index

theorem Instance.exposedMemory?_eq_none (hexposes : selection.exposesMemory original = false) :
    inst.exposedMemory? selection original store = none := by
  rw [exposedMemory?, Selection.memory?, hexposes]
  rfl

theorem Instance.exposedTable?_eq_none (hexposes : selection.exposesTable original = false) :
    inst.exposedTable? selection original store = none := by
  rw [exposedTable?, Selection.table?, hexposes]
  rfl

namespace Snapshot.Describes

variable (h : snapshot.Describes selection symbol original inst before)
  (h' : snapshot.Describes selection symbol original inst after)

include h

/-- The entries of the table are what the slots hold. -/
theorem holds_iff (slot : Nat) (index : UInt32) :
    inst.Holds selection original before slot index ↔
      snapshot.table[slot]? = some (some index) := by
  cases hexposes : selection.exposesTable original with
  | false =>
    rw [h.no_table hexposes, Instance.Holds, Instance.exposedTable?_eq_none hexposes]
    simp
  | true =>
    obtain ⟨table, hexposed, -, hentries⟩ := h.table hexposes
    rw [hentries, Instance.Holds, hexposed]
    simp

/-- An exposed global has the value that is recorded. -/
theorem value?_eq {index : UInt32}
    (hsome : (selection.exposed? original.imports original.globals index).isSome = true) :
    inst.value? before index = (snapshot.global? index).map GlobalValue.toValue := by
  obtain ⟨type, hexposed⟩ := Option.isSome_iff_exists.1 hsome
  cases type with
  | i32 =>
    obtain ⟨bits, hvalue, hglobal⟩ := h.i32Global hexposed
    rw [hvalue, hglobal]
    rfl
  | i64 =>
    obtain ⟨bits, hvalue, hglobal⟩ := h.i64Global hexposed
    rw [hvalue, hglobal]
    exact congrArg some (Value.toValue_of_global? rfl).symm

include h'

theorem alike : inst.Alike selection original before after where
  pages := by
    cases hexposes : selection.exposesMemory original with
    | false =>
      rw [Instance.exposedMemory?_eq_none hexposes, Instance.exposedMemory?_eq_none hexposes]
    | true =>
      obtain ⟨memory, words, hexposed, hwords, hhas⟩ := h.memory hexposes
      obtain ⟨memory', words', hexposed', hwords', hhas'⟩ := h'.memory hexposes
      cases hwords.symm.trans hwords'
      rw [hexposed, hexposed', Option.map_some, Option.map_some, hhas.iff_pages_eq.1 hhas']
  slots_size := by
    cases hexposes : selection.exposesTable original with
    | false =>
      rw [Instance.exposedTable?_eq_none hexposes, Instance.exposedTable?_eq_none hexposes]
    | true =>
      obtain ⟨table, hexposed, hlength, -⟩ := h.table hexposes
      obtain ⟨table', hexposed', hlength', -⟩ := h'.table hexposes
      rw [hexposed, hexposed', Option.map_some, Option.map_some, ← hlength, ← hlength']
  slots slot index := by rw [h.holds_iff, h'.holds_iff]
  globals hsome := by rw [h.value?_eq hsome, h'.value?_eq hsome]

omit h'

/-- What describes one state describes those that look like it. -/
theorem of_alike (halike : inst.Alike selection original before after) :
    snapshot.Describes selection symbol original inst after where
  symbol := h.symbol
  memory hexposes := by
    obtain ⟨memory, words, hexposed, hwords, hhas⟩ := h.memory hexposes
    have hpages := halike.pages
    rw [hexposed] at hpages
    obtain ⟨memory', hexposed', hpages⟩ := Option.map_eq_some_iff.1 hpages
    exact ⟨memory', words, hexposed', hwords, hhas.iff_pages_eq.2 hpages⟩
  no_memory := h.no_memory
  table hexposes := by
    obtain ⟨table, hexposed, hlength, -⟩ := h.table hexposes
    have hsize := halike.slots_size
    rw [hexposed] at hsize
    obtain ⟨table', hexposed', hsize⟩ := Option.map_eq_some_iff.1 hsize
    refine ⟨table', hexposed', hlength.trans hsize.symm, fun slot index => ?_⟩
    rw [← h.holds_iff, ← halike.slots, Instance.Holds, hexposed']
    simp
  no_table := h.no_table
  length_globals := h.length_globals
  i32Global {index} hexposed := by
    rw [halike.globals (by rw [hexposed]; rfl)]
    exact h.i32Global hexposed
  i64Global {index} hexposed := by
    rw [halike.globals (by rw [hexposed]; rfl)]
    exact h.i64Global hexposed
  unexposed := h.unexposed

end Snapshot.Describes

/-- A state is captured as another one of the same instance was if and only if it looks like it. -/
theorem Instance.Exposes.capture_iff_alike [Host]
    (h : inst.Exposes selection symbol original after)
    (hdescribes : snapshot.Describes selection symbol original inst before) :
    after.run (Snapshot.capture symbol inst) = (.ok snapshot, after) ↔
      inst.Alike selection original before after := by
  obtain ⟨captured, hrun, hcaptured⟩ := h.run_capture
  rw [hrun]
  constructor
  · intro heq
    cases heq
    exact hdescribes.alike hcaptured
  · intro halike
    rw [hcaptured.unique (hdescribes.of_alike halike)]

end WasmSnapshot
