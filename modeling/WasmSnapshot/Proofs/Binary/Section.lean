import WasmSnapshot.Instrument.Outline
import WasmSnapshot.Proofs.Binary.Leb128

/-! Modules, written and read back section by section. -/

namespace WasmSnapshot

namespace SectionKind

theorem id_injective {a b : SectionKind} (h : a.id = b.id) : a = b := by
  cases a <;> cases b <;> first | rfl | exact absurd h (by decide)

theorem ofId?_id (kind : SectionKind) : ofId? kind.id = some kind := by
  cases kind <;> rfl

theorem id_of_ofId? {id : UInt8} {kind : SectionKind} (h : ofId? id = some kind) :
    kind.id = id := by
  simpa using List.find?_some h

theorem id_lt (kind : SectionKind) : kind.id < 0x80 := by
  cases kind <;> decide

end SectionKind

/-- Written values are read back one by one, to the end of the input. -/
theorem Reader.toEnd_flatMap {α β : Type} {item : Reader β} [Consuming item] {encode : α → Bytes}
    {decode : α → β} {values : List α} (h : ∀ v ∈ values, Reads item (encode v) (decode v)) :
    toEnd item (values.flatMap encode) = some (values.map decode) := by
  induction values with
  | nil =>
    rw [List.flatMap_nil, toEnd]
    rfl
  | cons v values ih =>
    have hread := h v List.mem_cons_self (values.flatMap encode)
    have hlt := Consuming.length_lt hread
    rw [List.flatMap_cons]
    generalize encode v ++ values.flatMap encode = input at hread hlt
    cases input with
    | nil => cases hlt
    | cons b input =>
      rw [toEnd]
      split
      · next hnone =>
        rw [hread] at hnone
        cases hnone
      · next hsome =>
        rw [hread] at hsome
        cases hsome
        rw [ih fun w hw => h w (List.mem_cons_of_mem v hw)]
        rfl

namespace Section

theorem kind?_eq_some_iff {s : Section} {kind : SectionKind} :
    s.kind? = some kind ↔ s.id = kind.id := by
  refine ⟨fun h => (SectionKind.id_of_ofId? h).symm, fun h => ?_⟩
  rw [kind?, h, SectionKind.ofId?_id]

theorem kind?_eq_none_iff {s : Section} :
    s.kind? = none ↔ ∀ kind : SectionKind, s.id ≠ kind.id := by
  rw [Option.eq_none_iff_forall_ne_some]
  simp only [ne_eq, kind?_eq_some_iff]

/-- A section that can be written is read back, whatever follows it. -/
theorem read_encode {s : Section} (hid : s.id < 0x80) (hfits : s.fits) :
    Reader.Reads read s.encode s := by
  intro more
  have hlength : s.contents.length < 2 ^ 32 := by simpa [fits] using hfits
  rw [encode, List.cons_append, List.append_assoc, read, Reader.bind_of_eq_some rfl,
    Reader.bind_of_eq_some (Reader.guard_of hid _),
    Reader.bind_of_eq_some (Leb128.size_encode hlength _),
    Reader.bind_of_eq_some (Reader.take_append _ _)]
  rfl

theorem toEnd_flatMap_encode {sections : List Section}
    (h : ∀ s ∈ sections, s.id < 0x80 ∧ s.fits) :
    Reader.toEnd read (sections.flatMap encode) = some sections := by
  have hread : Reader.toEnd read (sections.flatMap encode) = some (sections.map fun s => s) :=
    Reader.toEnd_flatMap fun s hs => read_encode (h s hs).1 (h s hs).2
  rwa [List.map_id'] at hread

/-- A written module is read back section by section. -/
theorem readModule_encodeModule {sections : List Section}
    (h : ∀ s ∈ sections, s.id < 0x80 ∧ s.fits) :
    readModule (encodeModule sections) = .ok sections := by
  have hheader : Encoding.read (encodeModule sections) =
      some (.core, sections.flatMap encode) := rfl
  simp only [readModule, hheader, toEnd_flatMap_encode h]

/-- A section takes at least two bytes besides its contents, and its id is below 128. -/
theorem of_read {input rest : Bytes} {s : Section} (h : read input = some (s, rest)) :
    s.id < 0x80 ∧ s.contents.length + rest.length + 2 ≤ input.length := by
  unfold read at h
  obtain ⟨id, middle, hid, h1⟩ := Reader.bind_eq_some h
  obtain ⟨_, middle', hguard, h2⟩ := Reader.bind_eq_some h1
  obtain ⟨length, entries, hlength, h3⟩ := Reader.bind_eq_some h2
  obtain ⟨contents, after, hcontents, h4⟩ := Reader.bind_eq_some h3
  obtain ⟨hlt, rfl⟩ := Reader.guard_eq_some hguard
  cases h4
  cases Reader.byte_eq_some hid
  obtain ⟨rfl, rfl⟩ := Reader.take_eq_some hcontents
  have hsize := Reader.Consuming.length_lt hlength
  simp only [List.length_append, List.length_cons] at hsize ⊢
  exact ⟨hlt, by omega⟩

theorem toEnd_cons {α : Type} {item : Reader α} [Reader.Consuming item] {b : UInt8}
    {input : Bytes} {values : List α} (h : Reader.toEnd item (b :: input) = some values) :
    ∃ first rest others, item (b :: input) = some (first, rest) ∧
      Reader.toEnd item rest = some others ∧ values = first :: others := by
  rw [Reader.toEnd] at h
  split at h
  · cases h
  · next first rest hitem =>
    obtain ⟨others, hothers, rfl⟩ := Option.map_eq_some_iff.1 h
    exact ⟨first, rest, others, hitem, hothers, rfl⟩

/-- The bytes of the contents of all sections. -/
def contentSize (sections : List Section) : Nat := (sections.map (·.contents.length)).sum

theorem of_toEnd_read {input : Bytes} {sections : List Section}
    (h : Reader.toEnd read input = some sections) :
    (∀ s ∈ sections, s.id < 0x80) ∧ contentSize sections ≤ input.length := by
  induction sections generalizing input with
  | nil => exact ⟨List.forall_mem_nil _, Nat.zero_le _⟩
  | cons s sections ih =>
    cases input with
    | nil => rw [Reader.toEnd] at h; cases h
    | cons b input =>
      obtain ⟨first, rest, others, hread, hothers, heq⟩ := toEnd_cons h
      cases heq
      obtain ⟨hid, hlength⟩ := of_read hread
      obtain ⟨hids, hsize⟩ := ih hothers
      refine ⟨fun t ht => ?_, ?_⟩
      · rcases List.mem_cons.1 ht with rfl | ht
        · exact hid
        · exact hids t ht
      · simp only [contentSize, List.map_cons, List.sum_cons] at hsize ⊢
        omega

/-- The sections of a file have ids below 128, and their contents are shorter than the file. -/
theorem of_readModule {bytes : Bytes} {sections : List Section}
    (h : readModule bytes = .ok sections) :
    (∀ s ∈ sections, s.id < 0x80) ∧ contentSize sections + 8 ≤ bytes.length := by
  unfold readModule at h
  split at h
  · cases h
  · cases h
  · next rest hencoding =>
    split at h
    · next hsections =>
      cases h
      obtain ⟨hids, hsize⟩ := of_toEnd_read hsections
      refine ⟨hids, ?_⟩
      unfold Encoding.read at hencoding
      obtain ⟨magic, middle, hmagic, h1⟩ := Reader.bind_eq_some hencoding
      obtain ⟨_, middle', hguard, h2⟩ := Reader.bind_eq_some h1
      obtain ⟨version, middle'', hversion, h3⟩ := Reader.bind_eq_some h2
      obtain ⟨code, after, hcode, h4⟩ := Reader.bind_eq_some h3
      have hrest : after = rest := by
        split at h4
        · cases h4; rfl
        · cases h4
        · cases h4
      obtain ⟨-, rfl⟩ := Reader.guard_eq_some hguard
      obtain ⟨hlength, rfl⟩ := Reader.take_eq_some hmagic
      obtain ⟨hlength', rfl⟩ := Reader.take_eq_some hversion
      obtain ⟨hlength'', rfl⟩ := Reader.take_eq_some hcode
      simp only [List.length_append, hrest]
      omega
    · cases h

/-- The contents of a section that is read are no longer than its length can tell. -/
theorem length_lt_of_read {input rest : Bytes} {s : Section}
    (h : read input = some (s, rest)) : s.contents.length < 2 ^ 32 := by
  unfold read at h
  obtain ⟨id, middle, -, h1⟩ := Reader.bind_eq_some h
  obtain ⟨_, middle', -, h2⟩ := Reader.bind_eq_some h1
  obtain ⟨length, entries, hlength, h3⟩ := Reader.bind_eq_some h2
  obtain ⟨contents, after, hcontents, h4⟩ := Reader.bind_eq_some h3
  cases h4
  obtain ⟨rfl, -⟩ := Reader.take_eq_some hcontents
  exact Leb128.lt_of_unsigned hlength

theorem length_lt_of_toEnd_read {input : Bytes} {sections : List Section}
    (h : Reader.toEnd read input = some sections) :
    ∀ s ∈ sections, s.contents.length < 2 ^ 32 := by
  induction sections generalizing input with
  | nil => exact List.forall_mem_nil _
  | cons s sections ih =>
    cases input with
    | nil => rw [Reader.toEnd] at h; cases h
    | cons b input =>
      obtain ⟨first, rest, others, hread, hothers, heq⟩ := toEnd_cons h
      cases heq
      exact List.forall_mem_cons.2 ⟨length_lt_of_read hread, ih hothers⟩

theorem length_lt_of_readModule {bytes : Bytes} {sections : List Section}
    (h : readModule bytes = .ok sections) : ∀ s ∈ sections, s.contents.length < 2 ^ 32 := by
  unfold readModule at h
  split at h
  · cases h
  · cases h
  · split at h
    · next hsections =>
      cases h
      exact length_lt_of_toEnd_read hsections
    · cases h

end Section

end WasmSnapshot
