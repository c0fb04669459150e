import WasmSnapshot.Proofs.Instrument.Names
import WasmSnapshot.Proofs.Snapshot.Capture

/-! Capturing under another symbol than that of the accessors. Names of exports are all that a symbol
is compared with, and a name is that of an accessor under one symbol at most; so whatever state an
instance is in, and whatever was exported under the one symbol, the other sees nothing of it. -/

namespace WasmSnapshot

open Reader

/-! ### Exports as a host decodes them -/

theorem Name.toUTF8_of_fromUTF8? {bytes : ByteArray} {name : String}
    (h : String.fromUTF8? bytes = some name) : name.toUTF8 = bytes := by
  unfold String.fromUTF8? at h
  split at h
  · cases h
    rfl
  · cases h

/-- An export that a host reads, by its entry. -/
theorem Export.read_entry {e : Export} {input rest : Bytes} (h : read input = some (e, rest)) :
    ExportEntry.read input = some (e.entry, rest) := by
  unfold Export.read at h
  obtain ⟨name, afterName, hname, h⟩ := bind_eq_some h
  obtain ⟨kind, afterKind, hkind, h⟩ := bind_eq_some h
  obtain ⟨index, afterIndex, hindex, h⟩ := bind_eq_some h
  cases h
  unfold Name.read at hname
  obtain ⟨length, afterLength, hlength, h1⟩ := bind_eq_some hname
  obtain ⟨_, _, hguard, h2⟩ := bind_eq_some h1
  obtain ⟨bytes, afterBytes, hbytes, h3⟩ := bind_eq_some h2
  obtain ⟨-, rfl⟩ := guard_eq_some hguard
  cases hvalid : String.fromUTF8? ⟨bytes.toArray⟩ with
  | none =>
    rw [hvalid] at h3
    cases h3
  | some name =>
    rw [hvalid] at h3
    cases h3
    rw [ExportEntry.read, bind_of_eq_some hlength, bind_of_eq_some hbytes, bind_of_eq_some hkind,
      bind_of_eq_some hindex, Export.entry, Name.toUTF8_of_fromUTF8? hvalid]
    rfl

section Map

variable {α β : Type} {item : Reader α} {other : Reader β} {f : α → β}
  (h : ∀ input value rest, item input = some (value, rest) →
    other input = some (f value, rest))

include h

theorem Reader.times_map {n : Nat} {input rest : Bytes} {values : List α}
    (hread : times item n input = some (values, rest)) :
    times other n input = some (values.map f, rest) := by
  induction n generalizing input values with
  | zero =>
    cases hread
    rfl
  | succ n ih =>
    obtain ⟨first, middle, others, hfirst, hothers, rfl⟩ := times_succ_eq_some hread
    exact times_succ (h _ _ _ hfirst) (ih hothers)

theorem Module.entries?_map {sections : List Section} {kind : SectionKind} {values : List α}
    (hread : entries? sections kind item = some values) :
    entries? sections kind other = some (values.map f) := by
  induction sections generalizing values with
  | nil =>
    cases hread
    rfl
  | cons s sections ih =>
    by_cases hid : s.id = kind.id
    · obtain ⟨first, others, hfirst, hothers, rfl⟩ := (entries?_cons_eq_some hid).1 hread
      obtain ⟨entries, hsize, htimes⟩ := counted_eq_some (whole_eq_some hfirst)
      refine (entries?_cons_eq_some hid).2 ⟨first.map f, others.map f, ?_, ih hothers,
        List.map_append⟩
      apply whole_of_eq_some
      rw [counted, bind_of_eq_some hsize]
      exact times_map h htimes
    · rw [entries?_congr (Section.ofKind_cons_ne hid)] at hread ⊢
      exact ih hread

end Map

/-- The exports of a module, by the names that its file has for them. -/
theorem Declarations.exportNames?_eq {bytes : Bytes} {m : Declarations}
    (h : ofBytes? bytes = some m) :
    exportNames? bytes = some (m.exports.map fun e => e.name.toUTF8.data.toList) := by
  unfold ofBytes? at h
  split at h
  · next sections hread =>
    obtain ⟨-, -, -, hexports⟩ := ofSections?_eq_some h
    have hentries := Module.entries?_map (fun _ _ _ => Export.read_entry) hexports
    refine (exportNames?_eq_some hread).2 ⟨_, hentries, ?_⟩
    rw [List.map_map]
    rfl
  · cases h

/-- Where no export is added to another one, all exports are those of accessors. -/
theorem Declarations.names_of_instrument {selection : Selection} {symbol : String} {bytes : Bytes}
    {out : Instrumented} {m : Declarations} (hnone : exportNames? bytes = some [])
    (h : instrument selection symbol bytes = .ok out) (hdecoded : ofBytes? out.bytes = some m) :
    ∀ e ∈ m.exports, ∃ accessor : Accessor, e.name = accessor.exportName symbol := by
  obtain ⟨sections, outline, additions, spliced, hbuilt⟩ := built_of_instrument h
  obtain ⟨old, hold, hnames⟩ := (exportNames?_eq_some hbuilt.input).1 hnone
  obtain rfl : old = [] := List.map_eq_nil_iff.1 hnames.symm
  obtain ⟨new, added, hnew, hperm, hsublist⟩ := hbuilt.exports_decoded hold
  obtain ⟨new', hnew', hnames'⟩ :=
    (exportNames?_eq_some hbuilt.read).1 (exportNames?_eq hdecoded)
  rw [hnew] at hnew'
  cases hnew'
  intro e he
  have hmem : e.name.toUTF8.data.toList ∈ new.map (·.name) := by
    rw [← hnames']
    exact List.mem_map_of_mem he
  obtain ⟨entry, hentry, heq⟩ := List.mem_map.1 hmem
  rw [hperm.mem_iff, List.nil_append] at hentry
  obtain ⟨accessor, hname⟩ := hbuilt.name_of_mem (hsublist.subset hentry)
  exact ⟨accessor, Name.toList_toUTF8_injective (heq.symm.trans hname)⟩

/-! ### Instances -/

/-- An instance exports what its module does, under the same names. -/
theorem Instance.Of.exists_export {m : Declarations} {inst : Instance} {store : Store}
    (h : inst.Of m store) {entry : String × Extern} (hentry : entry ∈ inst.exports) :
    ∃ e ∈ m.exports, entry.1 = e.name := by
  rw [h.exports] at hentry
  obtain ⟨e, he, hresolved⟩ := List.mem_filterMap.1 hentry
  obtain ⟨item, -, rfl⟩ := Option.map_eq_some_iff.1 hresolved
  exact ⟨e, he, rfl⟩

/-- Without accessors there is nothing to capture. -/
theorem Snapshot.run_capture_of_none [Host] {symbol : String} {inst : Instance} (store : Store)
    (h : ∀ entry ∈ inst.exports, Accessor.ofExportName? symbol entry.1 = none) :
    store.run (Snapshot.capture symbol inst) = (.ok (Snapshot.empty symbol), store) := by
  have hnone : AccessorExports.ofInstance symbol inst = {} := AccessorExports.foldl_add_of_none h
  rw [Snapshot.capture, hnone]
  rfl

/-- Of exports that are all accessors under one symbol, another symbol captures nothing. -/
theorem Instance.run_capture_other [Host] {symbol other : String} {inst : Instance} (store : Store)
    (hnames : ∀ entry ∈ inst.exports, (Accessor.ofExportName? symbol entry.1).isSome = true)
    (hne : symbol ≠ other) :
    store.run (Snapshot.capture other inst) = (.ok (Snapshot.empty other), store) := by
  apply Snapshot.run_capture_of_none
  intro entry hentry
  obtain ⟨accessor, hname⟩ := Option.isSome_iff_exists.1 (hnames entry hentry)
  exact Option.eq_none_iff_forall_ne_some.2 fun found hfound =>
    hne (Accessor.symbol_unique hname hfound)

/-- Symbols keep accessors apart, be one of them empty or the beginning of the other: no name is an
accessor's under both, and where all exports of an instance are accessors under the one, capturing it
with the other succeeds, changes nothing and gives the empty snapshot. This is so in particular of
every instance of a module that was given accessors and had no exports before. -/
theorem symbols_separate [Host] (symbol other : String) :
    (∀ name a b, Accessor.ofExportName? symbol name = some a →
      Accessor.ofExportName? other name = some b → symbol = other) ∧
    (symbol ≠ other →
      (∀ accessor : Accessor, Accessor.ofExportName? other (accessor.exportName symbol) = none) ∧
      (∀ (inst : Instance) (store : Store),
        (∀ entry ∈ inst.exports, (Accessor.ofExportName? symbol entry.1).isSome = true) →
        store.run (Snapshot.capture other inst) = (.ok (Snapshot.empty other), store)) ∧
      ∀ selection bytes out m (inst : Instance) (store : Store), exportNames? bytes = some [] →
        instrument selection symbol bytes = .ok out → Declarations.ofBytes? out.bytes = some m →
        inst.Of m store →
        store.run (Snapshot.capture other inst) = (.ok (Snapshot.empty other), store)) := by
  constructor
  · intro name a b ha hb
    exact Accessor.symbol_unique ha hb
  · intro hne
    refine ⟨Accessor.ofExportName?_of_ne hne.symm, ?_, ?_⟩
    · intro inst store hnames
      exact inst.run_capture_other store hnames hne
    · intro selection bytes out m inst store hnone hout hdecoded hof
      refine inst.run_capture_other store (fun entry hentry => ?_) hne
      obtain ⟨e, he, hname⟩ := hof.exists_export hentry
      obtain ⟨accessor, heq⟩ := Declarations.names_of_instrument hnone hout hdecoded e he
      rw [hname, heq, Accessor.ofExportName?_exportName]
      rfl

theorem symbols_separate_empty : ∃ (out : Instrumented) (declared : Declarations)
    (inst : Instance) (store : Store),
    Accessor.ofExportName? "_" "_func_0" = some (.function 0) ∧
    exportNames? (Section.encodeModule sampleSections) = some [] ∧
    instrument .all "_" (Section.encodeModule sampleSections) = .ok out ∧
    Declarations.ofBytes? out.bytes = some declared ∧ inst.Of declared store ∧
    Accessor.ofExportName? "" "_func_0" = none ∧
    store.run (Snapshot.capture "" inst) = (.ok (Snapshot.empty ""), store) := by
  have hname : Accessor.ofExportName? "_" "_func_0" = some (.function 0) := by decide +kernel
  have hnone : exportNames? (Section.encodeModule sampleSections) = some [] := by decide +kernel
  obtain ⟨declared, inst, made, hprepared, hof, -⟩ :=
    exists_sample (p := fun _ _ => true) (by decide +kernel)
  obtain ⟨out, hout, hdecoded⟩ := hprepared.instrumented
  obtain ⟨hunique, hother⟩ := symbols_separate "_" ""
  have hne : "_" ≠ "" := by decide
  refine ⟨out, declared, inst, made, hname, hnone, hout, hdecoded, hof, ?_, ?_⟩
  · exact Option.eq_none_iff_forall_ne_some.2 fun b hb => hne (hunique _ _ b hname hb)
  · exact (hother hne).2.2 .all _ out declared inst made hnone hout hdecoded hof

end WasmSnapshot
