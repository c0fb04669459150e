import WasmSnapshot.Proofs.Binary.Forms

/-! Bytes as words one after the other. A format says which words stand for which values. If the end of
a word can be told from the bytes themselves, then bytes are cut into words in one way at most, so
entries that are written one behind the other are never taken for others, nor for more or fewer. -/

namespace WasmSnapshot

/-- Which words stand for which values. -/
abbrev EntryFormat (α : Type) := Bytes → α → Prop

/-- No word is empty, and where a word ends and what it stands for can be told from the bytes. -/
structure EntryFormat.Delimited {α : Type} (format : EntryFormat α) : Prop where
  ne_nil {word : Bytes} {value : α} : format word value → word ≠ []
  append_inj {word other rest rest' : Bytes} {value value' : α} (h : format word value)
    (h' : format other value') (heq : word ++ rest = other ++ rest') : word = other ∧ value = value'

/-- The bytes are the words of these entries one after the other, each with the value that it stands
for. -/
structure Cut {α : Type} (format : EntryFormat α) (bytes : Bytes) (entries : List (Bytes × α)) :
    Prop where
  words : ∀ entry ∈ entries, format entry.1 entry.2
  flatten : (entries.map Prod.fst).flatten = bytes

namespace Cut

variable {α β : Type} {format : EntryFormat β} {bytes : Bytes} {entries others : List (Bytes × β)}

theorem cons_inv {entry : Bytes × β} (h : Cut format bytes (entry :: entries)) :
    ∃ rest, format entry.1 entry.2 ∧ bytes = entry.1 ++ rest ∧ Cut format rest entries :=
  ⟨_, h.words entry List.mem_cons_self, h.flatten.symm,
    ⟨fun other hother => h.words other (List.mem_cons_of_mem entry hother), rfl⟩⟩

theorem nil_inv (h : Cut format bytes []) : bytes = [] := h.flatten.symm

/-- There is no other way to cut the bytes. -/
theorem unique (hformat : format.Delimited) (h : Cut format bytes entries)
    (hothers : Cut format bytes others) : others = entries := by
  induction entries generalizing bytes others with
  | nil =>
    cases h.nil_inv
    cases others with
    | nil => rfl
    | cons other others =>
      obtain ⟨rest, hword, heq, -⟩ := hothers.cons_inv
      exact absurd (List.append_eq_nil_iff.1 heq.symm).1 (hformat.ne_nil hword)
  | cons entry entries ih =>
    obtain ⟨rest, hword, rfl, hrest⟩ := h.cons_inv
    cases others with
    | nil => exact absurd (List.append_eq_nil_iff.1 hothers.nil_inv).1 (hformat.ne_nil hword)
    | cons other others =>
      -- Both ways begin with the same word, and are ways to cut what follows it.
      obtain ⟨rest', hword', heq, hrest'⟩ := hothers.cons_inv
      obtain ⟨hsame, hvalue⟩ := hformat.append_inj hword hword' heq
      rw [hsame] at heq
      cases List.append_cancel_left heq
      rw [ih hrest hrest', Prod.ext hsame hvalue]

/-- Written entries are cut as they were written. -/
theorem of_flatMap {encode : α → Bytes} {decode : α → β} {values : List α}
    (h : ∀ v ∈ values, format (encode v) (decode v)) :
    Cut format (values.flatMap encode) (values.map fun v => (encode v, decode v)) where
  words entry hentry := by
    obtain ⟨v, hv, rfl⟩ := List.mem_map.1 hentry
    exact h v hv
  flatten := by rw [List.map_map, List.flatMap]; rfl

end Cut

/-! ### Formats -/

namespace EntryFormat

/-- The words that a reader takes. -/
def ofReader {α : Type} (item : Reader α) : EntryFormat α := fun word value =>
  item word = some (value, [])

theorem delimited_ofReader {α : Type} (item : Reader α) [Reader.Extensible item]
    (hnil : item [] = none) : (ofReader item).Delimited where
  ne_nil {word value} h hword := by
    rw [ofReader, hword, hnil] at h
    cases h
  append_inj {word other rest rest' value value'} h h' heq := by
    have hread := Reader.Extensible.append h rest
    rw [heq, List.nil_append] at hread
    obtain ⟨rfl, rfl⟩ := Prod.mk.inj
      (Option.some.inj (hread.symm.trans (Reader.Extensible.append h' rest')))
    exact ⟨List.append_cancel_right heq, rfl⟩

/-- An index, in any form. -/
def index : EntryFormat UInt32 := fun word i => Leb128.Form word i.toNat

theorem index_encode (i : UInt32) : index (Instr.encodeIndex i) i := Leb128.form_encode i.toNat

theorem delimited_index : index.Delimited where
  ne_nil h := h.ne_nil
  append_inj h h' heq := by
    obtain ⟨hword, hvalue, -⟩ := h.append_inj h' heq
    exact ⟨hword, UInt32.toNat_inj.1 hvalue⟩

/-- Bytes with their number before them. -/
def sized : EntryFormat Bytes := fun word contents =>
  ∃ size, Leb128.Form size contents.length ∧ word = size ++ contents

theorem sized_encode (contents : Bytes) :
    sized (Leb128.encode contents.length ++ contents) contents :=
  ⟨_, Leb128.form_encode contents.length, rfl⟩

theorem delimited_sized : sized.Delimited where
  ne_nil := by
    rintro _ _ ⟨size, hsize, rfl⟩ hnil
    exact hsize.ne_nil (List.append_eq_nil_iff.1 hnil).1
  append_inj := by
    rintro _ _ rest rest' contents contents' ⟨size, hsize, rfl⟩ ⟨size', hsize', rfl⟩ heq
    rw [List.append_assoc, List.append_assoc] at heq
    obtain ⟨rfl, hlength, heq⟩ := hsize.append_inj hsize' heq
    obtain ⟨rfl, -⟩ := List.append_inj heq hlength
    exact ⟨rfl, rfl⟩

end EntryFormat

end WasmSnapshot
