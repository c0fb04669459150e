import WasmSnapshot.Instrument.Splice
import WasmSnapshot.Module.Basic
import WasmSnapshot.Proofs.Binary.Section

/-! One step of splicing. Before a section of a known kind, sections are made of the entries that are
due there; the entries for its own kind, if there are any, go into it. -/

namespace WasmSnapshot

theorem Except.bind_eq_ok {ε α β : Type} {x : Except ε α} {f : α → Except ε β} {b : β}
    (h : (x >>= f) = .ok b) : ∃ a, x = .ok a ∧ f a = .ok b := by
  cases x with
  | error e => cases h
  | ok a => exact ⟨a, rfl, h⟩

theorem Except.bind_eq_error {ε α β : Type} {x : Except ε α} {f : α → Except ε β} {e : ε}
    (h : (x >>= f) = .error e) : x = .error e ∨ ∃ a, x = .ok a ∧ f a = .error e := by
  cases x with
  | error other =>
    cases h
    exact .inl rfl
  | ok a => exact .inr ⟨a, rfl, h⟩

theorem Except.exists_of_isOk {ε α : Type} {x : Except ε α} (h : x.isOk = true) :
    ∃ a, x = .ok a := by
  cases x with
  | error e => cases h
  | ok a => exact ⟨a, rfl⟩

/-- The sections of a kind. -/
def Section.ofKind (kind : SectionKind) (sections : List Section) : List Section :=
  sections.filter (·.id = kind.id)

namespace Section

variable {kind other : SectionKind} {s : Section} {sections : List Section}

theorem ofKind_cons_self (h : s.id = kind.id) :
    ofKind kind (s :: sections) = s :: ofKind kind sections := by
  simp [ofKind, h]

theorem ofKind_cons_ne (h : s.id ≠ kind.id) :
    ofKind kind (s :: sections) = ofKind kind sections := by
  simp [ofKind, h]

theorem ofKind_append (kind : SectionKind) (before after : List Section) :
    ofKind kind (before ++ after) = ofKind kind before ++ ofKind kind after :=
  List.filter_append ..

theorem ofKind_eq_nil (h : ∀ s ∈ sections, s.id ≠ kind.id) : ofKind kind sections = [] := by
  simpa [ofKind] using h

end Section

/-- The sections of a kind after entries for that kind are placed among them. -/
def Entries.placed (kind : SectionKind) :
    Option Entries → List Section → Except InstrumentError (List Section)
  | none, sections => .ok sections
  | some entries, [] => .ok [⟨kind.id, entries.contents⟩]
  | some entries, s :: rest => do
    let contents ← entries.appendTo kind s.contents
    pure (⟨s.id, contents⟩ :: rest)

namespace Entries

variable {kind : SectionKind} {entries : Entries} {old new : List Section}

/-- Entries that are placed stand in a section. -/
theorem length_le_of_placed (h : placed kind (some entries) old = .ok new) :
    ∃ s ∈ new, entries.bytes.length ≤ s.contents.length := by
  cases old with
  | nil =>
    cases h
    refine ⟨_, List.mem_singleton_self _, ?_⟩
    rw [contents, List.length_append]
    exact Nat.le_add_left _ _
  | cons s rest =>
    obtain ⟨contents, hcontents, h⟩ := Except.bind_eq_ok h
    cases h
    refine ⟨_, List.mem_cons_self, ?_⟩
    unfold appendTo at hcontents
    split at hcontents
    · cases hcontents
    · split at hcontents
      · cases hcontents
        rw [List.length_append]
        exact Nat.le_add_left _ _
      · cases hcontents

/-- Placing entries makes a section if there is none, and no more than that. -/
theorem length_of_placed (h : placed kind (some entries) old = .ok new) :
    new.length = max 1 old.length := by
  cases old with
  | nil => cases h; rfl
  | cons s rest =>
    obtain ⟨contents, -, h⟩ := Except.bind_eq_ok h
    cases h
    rw [List.length_cons, List.length_cons]
    omega

/-- A section in which entries are placed keeps its id. -/
theorem placed_singleton {waiting : Option Entries} {s : Section}
    (h : placed kind waiting [s] = .ok new) : ∃ contents, new = [⟨s.id, contents⟩] := by
  cases waiting with
  | none =>
    cases h
    exact ⟨s.contents, rfl⟩
  | some entries =>
    obtain ⟨contents, -, h⟩ := Except.bind_eq_ok h
    cases h
    exact ⟨contents, rfl⟩

end Entries

namespace Pending

variable {kind : SectionKind} {pending : Pending}

/-- The kinds that entries wait for. -/
def targets (pending : Pending) : List SectionKind := pending.map (·.1)

theorem lookup_eq_none : pending.lookup kind = none ↔ kind ∉ pending.targets := by
  simp [targets, List.lookup_eq_none_iff]
  grind

theorem lookup_cons_ne {target : SectionKind} (h : kind ≠ target) (entries : Entries) :
    ((target, entries) :: pending).lookup kind = pending.lookup kind := by
  rw [List.lookup_cons, show (kind == target) = false by simpa using h]

theorem lookup_filter (p : SectionKind → Bool) (kind : SectionKind) (pending : Pending) :
    (pending.filter fun entry => p entry.1).lookup kind =
      if p kind then pending.lookup kind else none := by
  induction pending with
  | nil => simp
  | cons entry pending ih =>
    obtain ⟨target, entries⟩ := entry
    by_cases htarget : kind = target
    · subst htarget
      by_cases hp : p kind <;> simp [hp, ih]
    · by_cases hp : p target <;> simp [hp, ih, lookup_cons_ne htarget]

theorem takeFor_cons_self (kind : SectionKind) (entries : Entries) (pending : Pending) :
    takeFor kind ((kind, entries) :: pending) = (some entries, pending) := by
  rw [takeFor, if_pos rfl]

theorem takeFor_cons_ne {target : SectionKind} (h : kind ≠ target) (entries : Entries) :
    takeFor kind ((target, entries) :: pending) =
      ((takeFor kind pending).1, (target, entries) :: (takeFor kind pending).2) := by
  rw [takeFor, if_neg (Ne.symm h)]

theorem takeFor_fst (kind : SectionKind) (pending : Pending) :
    (takeFor kind pending).1 = pending.lookup kind := by
  induction pending with
  | nil => rfl
  | cons entry pending ih =>
    obtain ⟨target, entries⟩ := entry
    by_cases htarget : kind = target
    · subst htarget
      rw [takeFor_cons_self, List.lookup_cons_self]
    · rw [takeFor_cons_ne htarget, lookup_cons_ne htarget, ih]

/-- What is left when the entries for a kind are taken, if each kind occurs once. -/
theorem takeFor_snd (kind : SectionKind) {pending : Pending} (h : pending.targets.Nodup) :
    (takeFor kind pending).2 = pending.filter fun entry => entry.1 != kind := by
  induction pending with
  | nil => rfl
  | cons entry pending ih =>
    obtain ⟨target, entries⟩ := entry
    obtain ⟨hnot, hnodup⟩ := List.nodup_cons.1 h
    by_cases htarget : kind = target
    · subst htarget
      rw [takeFor_cons_self, List.filter_cons_of_neg (by simp)]
      refine (List.filter_eq_self.2 fun other hother => ?_).symm
      have hmem : other.1 ∈ targets pending := List.mem_map_of_mem hother
      have hne : other.1 ≠ kind := fun heq => hnot (heq ▸ hmem)
      simpa using hne
    · rw [takeFor_cons_ne htarget, List.filter_cons_of_pos (by simpa using Ne.symm htarget),
        ih hnodup]

/-- No kind waits twice, and `present` tells which kinds occur in the sections. -/
structure Placeable (present : SectionKind → Bool) (pending : Pending) (sections : List Section) :
    Prop where
  nodup : pending.targets.Nodup
  present_iff : ∀ target ∈ pending.targets, present target = true ↔
    ∃ s ∈ sections, s.id = target.id

theorem Placeable.filter {present : SectionKind → Bool} {sections : List Section}
    (h : Placeable present pending sections) (p : SectionKind × Entries → Bool) :
    Placeable present (pending.filter p) sections where
  nodup := h.nodup.sublist (List.filter_sublist.map _)
  present_iff target htarget := h.present_iff target ((List.filter_sublist.map _).subset htarget)

/-- Past a section for which nothing waits. -/
theorem Placeable.tail {present : SectionKind → Bool} {s : Section} {sections : List Section}
    (h : Placeable present pending (s :: sections))
    (hs : ∀ target ∈ pending.targets, s.id ≠ target.id) :
    Placeable present pending sections where
  nodup := h.nodup
  present_iff target htarget := by
    rw [h.present_iff target htarget]
    simp [hs target htarget]

/-- Whether entries for `target` go before a section of kind `here`. -/
def isDue (present : SectionKind → Bool) (here target : SectionKind) : Bool :=
  !present target && target.rank < here.rank

/-- The pending entries, apart by whether they go before a section of kind `here`. -/
theorem partition_due (present : SectionKind → Bool) (here : SectionKind) (pending : Pending) :
    (pending.partition fun (target, _) => !present target && target.rank < here.rank) =
      (pending.filter fun e => isDue present here e.1,
        pending.filter fun e => !isDue present here e.1) :=
  List.partition_eq_filter_filter

/-- Splicing at a section of a known kind, as an equation: the entries that are due come before it,
and those for its own kind go into it. -/
theorem splice_cons_eq {present : SectionKind → Bool} {s : Section} {sections : List Section}
    {here : SectionKind} (hnodup : pending.targets.Nodup) (hkind : s.kind? = some here) :
    splice present pending (s :: sections) = (do
      let placed ←
        Entries.placed here ((pending.filter fun e => !isDue present here e.1).lookup here) [s]
      let others ← splice present
        ((pending.filter fun e => !isDue present here e.1).filter fun e => e.1 != here) sections
      pure (newSections (pending.filter fun e => isDue present here e.1) ++ (placed ++ others))) := by
  rw [splice, hkind]
  simp only [partition_due]
  have hwaiting : targets (pending.filter fun e => !isDue present here e.1) |>.Nodup :=
    hnodup.sublist (List.filter_sublist.map _)
  generalize (pending.filter fun e => !isDue present here e.1) = waiting at hwaiting ⊢
  have hlookup := takeFor_fst here waiting
  have hleft := takeFor_snd here hwaiting
  split
  · next entries left htake =>
    rw [htake] at hlookup hleft
    subst hleft
    rw [← hlookup]
    simp only [Entries.placed, bind_assoc, pure_bind, List.cons_append, List.nil_append]
  · next left htake =>
    rw [htake] at hlookup
    -- Nothing waits for this kind, so nothing is left out.
    have hall : (waiting.filter fun e => e.1 != here) = waiting := by
      refine List.filter_eq_self.2 fun e he => ?_
      have hne : e.1 ≠ here := fun heq =>
        lookup_eq_none.1 hlookup.symm (heq ▸ List.mem_map_of_mem he)
      simpa using hne
    rw [← hlookup, hall]
    rfl

/-- What splicing at a section of a known kind gives. -/
theorem splice_cons {present : SectionKind → Bool} {s : Section} {sections spliced : List Section}
    {here : SectionKind} (hnodup : pending.targets.Nodup) (hkind : s.kind? = some here)
    (h : splice present pending (s :: sections) = .ok spliced) :
    ∃ contents others,
      Entries.placed here ((pending.filter fun e => !isDue present here e.1).lookup here) [s] =
        .ok [⟨s.id, contents⟩] ∧
      splice present
        ((pending.filter fun e => !isDue present here e.1).filter fun e => e.1 != here) sections =
        .ok others ∧
      spliced = newSections (pending.filter fun e => isDue present here e.1) ++
        ⟨s.id, contents⟩ :: others := by
  rw [splice_cons_eq hnodup hkind] at h
  obtain ⟨placed, hplaced, h⟩ := Except.bind_eq_ok h
  obtain ⟨others, hothers, h⟩ := Except.bind_eq_ok h
  obtain ⟨contents, rfl⟩ := Entries.placed_singleton hplaced
  cases h
  exact ⟨contents, others, hplaced, hothers, rfl⟩

end Pending

end WasmSnapshot
