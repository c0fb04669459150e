import WasmSnapshot.Proofs.Binary.Section

/-! Files byte by byte. What is read of a file are its sections; the header and the bytes that tell
how long a section is are not kept, and more than one file has the same sections. A file that can be
read is cut here into the parts that reading takes it apart into, none of which is lost. -/

namespace WasmSnapshot

/-- The bytes of a number that is read stand at the front of the input. -/
theorem Leb128.exists_front {width n : Nat} {input rest : Bytes}
    (h : unsigned width input = some (n, rest)) :
    ∃ front, input = front ++ rest ∧ unsigned width front = some (n, []) := by
  induction input generalizing width n with
  | nil => cases h
  | cons b input ih =>
    unfold unsigned at h
    split at h
    · next hb =>
      split at h
      · next hfits =>
        cases h
        rw [Nat.one_shiftLeft] at hfits
        exact ⟨[b], rfl, unsigned_cons hb hfits⟩
      · cases h
    · next hb =>
      split at h
      · cases h
      · next hwidth =>
        split at h
        · cases h
        · next hrest =>
          cases h
          obtain ⟨front, rfl, hfront⟩ := ih hrest
          exact ⟨b :: front, rfl, unsigned_cons_more (by omega) (by omega) hfront⟩

namespace Encoding

instance : Reader.Extensible read := by
  unfold read
  have (code : Bytes) : Reader.Extensible (match code with
      | [0, 0] => (pure .core : Reader Encoding)
      | [1, 0] => pure .component
      | _ => failure) := by
    split <;> infer_instance
  infer_instance

theorem exists_front {encoding : Encoding} {input rest : Bytes}
    (h : read input = some (encoding, rest)) :
    ∃ front, input = front ++ rest ∧ front.length = 8 ∧ read front = some (encoding, []) := by
  unfold read at h
  obtain ⟨magic, middle, hmagic, h1⟩ := Reader.bind_eq_some h
  obtain ⟨_, middle', hguard, h2⟩ := Reader.bind_eq_some h1
  obtain ⟨version, middle'', hversion, h3⟩ := Reader.bind_eq_some h2
  obtain ⟨code, after, hcode, h4⟩ := Reader.bind_eq_some h3
  obtain ⟨rfl, rfl⟩ := Reader.guard_eq_some hguard
  obtain ⟨-, rfl⟩ := Reader.take_eq_some hmagic
  obtain ⟨hlength, rfl⟩ := Reader.take_eq_some hversion
  obtain ⟨-, rfl⟩ := Reader.take_eq_some hcode
  obtain ⟨major, minor, rfl⟩ := List.length_eq_two.1 hlength
  split at h4
  · cases h4
    exact ⟨magic ++ [major, minor, 0, 0], rfl, rfl, rfl⟩
  · cases h4
    exact ⟨magic ++ [major, minor, 1, 0], rfl, rfl, rfl⟩
  · cases h4

end Encoding

/-- A section as a file has it, with the bytes of its length. -/
structure Section.Form where
  id : UInt8
  length : Bytes
  contents : Bytes
  id_lt : id < 0x80
  length_read : Leb128.size length = some (contents.length, [])

/-- A file: the header, then sections. -/
structure File where
  header : Bytes
  forms : List Section.Form
  header_read : Encoding.read header = some (.core, [])

namespace Section.Form

def toSection (form : Form) : Section := ⟨form.id, form.contents⟩

def bytes (form : Form) : Bytes := form.id :: (form.length ++ form.contents)

theorem read_bytes (form : Form) : Reader.Reads Section.read form.bytes form.toSection := by
  intro more
  rw [bytes, List.cons_append, List.append_assoc, Section.read, Reader.bind_of_eq_some rfl,
    Reader.bind_of_eq_some (Reader.guard_of form.id_lt _),
    Reader.bind_of_eq_some (Reader.Extensible.append form.length_read _), List.nil_append,
    Reader.bind_of_eq_some (Reader.take_append _ _)]
  rfl

theorem exists_of_read {input rest : Bytes} {s : Section}
    (h : Section.read input = some (s, rest)) :
    ∃ form : Form, form.toSection = s ∧ input = form.bytes ++ rest := by
  unfold Section.read at h
  obtain ⟨id, middle, hid, h1⟩ := Reader.bind_eq_some h
  obtain ⟨_, middle', hguard, h2⟩ := Reader.bind_eq_some h1
  obtain ⟨length, entries, hlength, h3⟩ := Reader.bind_eq_some h2
  obtain ⟨contents, after, hcontents, h4⟩ := Reader.bind_eq_some h3
  cases h4
  cases Reader.byte_eq_some hid
  obtain ⟨hlt, rfl⟩ := Reader.guard_eq_some hguard
  obtain ⟨rfl, rfl⟩ := Reader.take_eq_some hcontents
  obtain ⟨front, rfl, hfront⟩ := Leb128.exists_front hlength
  refine ⟨⟨id, front, contents, hlt, hfront⟩, rfl, ?_⟩
  rw [bytes, List.cons_append, List.append_assoc]

theorem exists_of_toEnd_read {input : Bytes} {sections : List Section}
    (h : Reader.toEnd Section.read input = some sections) :
    ∃ forms : List Form, forms.map toSection = sections ∧ input = forms.flatMap bytes := by
  induction sections generalizing input with
  | nil =>
    refine ⟨[], rfl, ?_⟩
    cases input with
    | nil => rfl
    | cons b input =>
      obtain ⟨first, rest, others, -, -, hcons⟩ := Section.toEnd_cons h
      cases hcons
  | cons s sections ih =>
    cases input with
    | nil =>
      rw [Reader.toEnd] at h
      cases h
    | cons b input =>
      obtain ⟨first, rest, others, hread, hothers, hcons⟩ := Section.toEnd_cons h
      cases hcons
      obtain ⟨form, hform, hinput⟩ := exists_of_read hread
      obtain ⟨forms, hforms, hrest⟩ := ih hothers
      refine ⟨form :: forms, ?_, ?_⟩
      · rw [List.map_cons, hform, hforms]
      · rw [hinput, List.flatMap_cons, ← hrest]

/-- Two forms of one section begin alike only if they have the length in the same bytes. -/
theorem eq_of_append_eq {form : Form} {rest rest' : Bytes} (hfits : form.toSection.fits)
    (h : form.bytes ++ rest = form.toSection.encode ++ rest') :
    form.length = Leb128.encode form.contents.length ∧ rest = rest' := by
  have hlt : form.contents.length < 2 ^ 32 := of_decide_eq_true hfits
  rw [bytes, encode, List.cons_append, List.cons_append, List.append_assoc,
    List.append_assoc] at h
  have h := (List.cons.inj h).2
  have hform := Reader.Extensible.append form.length_read (form.contents ++ rest)
  rw [h] at hform
  have hread := Leb128.size_encode hlt (form.contents ++ rest')
  have hafter := (Prod.ext_iff.1 (Option.some.inj (hform.symm.trans hread))).2
  have hrest : rest = rest' := List.append_cancel_left hafter
  subst hrest
  exact ⟨List.append_cancel_right h, rfl⟩

end Section.Form

namespace File

def bytes (file : File) : Bytes := file.header ++ file.forms.flatMap Section.Form.bytes

def sections (file : File) : List Section := file.forms.map Section.Form.toSection

theorem readModule_bytes (file : File) : Section.readModule file.bytes = .ok file.sections := by
  have hheader : Encoding.read file.bytes = some (.core, file.forms.flatMap Section.Form.bytes) :=
    Reader.Extensible.append file.header_read _
  have hsections : Reader.toEnd Section.read (file.forms.flatMap Section.Form.bytes) =
      some file.sections :=
    Reader.toEnd_flatMap fun form _ => form.read_bytes
  simp only [Section.readModule, hheader, hsections]

theorem exists_of_readModule {bytes : Bytes} {sections : List Section}
    (h : Section.readModule bytes = .ok sections) :
    ∃ file : File, file.bytes = bytes ∧ file.sections = sections := by
  unfold Section.readModule at h
  split at h
  · cases h
  · cases h
  · next rest hencoding =>
    split at h
    · next hsections =>
      cases h
      obtain ⟨header, rfl, -, hheader⟩ := Encoding.exists_front hencoding
      obtain ⟨forms, hforms, rfl⟩ := Section.Form.exists_of_toEnd_read hsections
      exact ⟨⟨header, forms, hheader⟩, rfl, hforms⟩
    · cases h

/-- The header and all lengths are as they are written. -/
structure Canonical (file : File) : Prop where
  header : file.header = Section.header
  lengths : ∀ form ∈ file.forms, form.length = Leb128.encode form.contents.length

theorem flatMap_bytes_eq_iff {forms : List Section.Form}
    (hfits : ∀ form ∈ forms, form.toSection.fits) :
    forms.flatMap Section.Form.bytes = (forms.map Section.Form.toSection).flatMap Section.encode ↔
      ∀ form ∈ forms, form.length = Leb128.encode form.contents.length := by
  induction forms with
  | nil => simp
  | cons form forms ih =>
    obtain ⟨hform, hforms⟩ := List.forall_mem_cons.1 hfits
    rw [List.flatMap_cons, List.map_cons, List.flatMap_cons, List.forall_mem_cons, ← ih hforms]
    constructor
    · intro h
      exact Section.Form.eq_of_append_eq hform h
    · rintro ⟨hlength, hrest⟩
      rw [hrest, Section.Form.bytes, hlength]
      rfl

theorem canonical_iff {file : File} :
    file.Canonical ↔ file.bytes = Section.encodeModule file.sections := by
  have hfits : ∀ form ∈ file.forms, form.toSection.fits := by
    intro form hform
    have hlt := Section.length_lt_of_readModule file.readModule_bytes form.toSection
      (List.mem_map_of_mem hform)
    simpa [Section.fits] using hlt
  have hheader : file.header.length = Section.header.length := by
    obtain ⟨front, hfront, hlength, -⟩ := Encoding.exists_front file.header_read
    rw [hfront, List.append_nil, hlength]
    rfl
  constructor
  · rintro ⟨hcanonical, hlengths⟩
    rw [bytes, hcanonical, (flatMap_bytes_eq_iff hfits).2 hlengths]
    rfl
  · intro h
    obtain ⟨hcanonical, hforms⟩ := List.append_inj h hheader
    exact ⟨hcanonical, (flatMap_bytes_eq_iff hfits).1 hforms⟩

end File

end WasmSnapshot
