import WasmSnapshot.Instrument.Entries
import WasmSnapshot.Proofs.Binary.Extension

/-! Numbers in the binary format, written and read back.

The shortest form of a number is read back by every reader that is wide enough for it. A count that
a reader of 32 bits takes, padded or not, is the same to the reader of 64 bits that takes it again
before entries are added. -/

namespace WasmSnapshot

open Reader

namespace Leb128

theorem unsigned_cons {width : Nat} {b : UInt8} {rest : Bytes} (hb : b.toNat < 128)
    (hw : b.toNat < 2 ^ width) : unsigned width (b :: rest) = some (b.toNat, rest) := by
  rw [unsigned, if_pos hb, Nat.one_shiftLeft, if_pos hw]

theorem unsigned_cons_more {width high : Nat} {b : UInt8} {rest after : Bytes}
    (hb : 128 ≤ b.toNat) (hw : 7 < width) (h : unsigned (width - 7) rest = some (high, after)) :
    unsigned width (b :: rest) = some (b.toNat - 128 + 128 * high, after) := by
  rw [unsigned, if_neg (by omega), if_neg (by omega), h]

/-- A number that fits is read back from its shortest form, whatever follows it. -/
theorem unsigned_encode {width n : Nat} (hn : n < 2 ^ width) (more : Bytes) :
    unsigned width (encode n ++ more) = some (n, more) := by
  induction n using encode.induct generalizing width with
  | case1 n hlt =>
    have hb : (UInt8.ofNat n).toNat = n := UInt8.toNat_ofNat_of_lt' (by simp [UInt8.size]; omega)
    rw [encode, if_pos hlt, List.cons_append, unsigned_cons (by omega) (by omega), hb]
    rfl
  | case2 n hge ih =>
    have hb : (UInt8.ofNat (n % 128 + 128)).toNat = n % 128 + 128 :=
      UInt8.toNat_ofNat_of_lt' (by simp [UInt8.size]; omega)
    have hwidth : 7 < width := by
      rcases Nat.lt_or_ge 7 width with hw | hw
      · exact hw
      · have := Nat.pow_le_pow_right (show 0 < 2 by omega) hw
        omega
    have hpow : 2 ^ width = 128 * 2 ^ (width - 7) := by
      rw [← Nat.pow_add 2 7, show 7 + (width - 7) = width by omega]
    rw [encode, if_neg hge, List.cons_append,
      unsigned_cons_more (by omega) hwidth (ih (show n / 128 < 2 ^ (width - 7) by omega)), hb]
    congr 2
    omega

/-- What a reader takes is a number of its width. -/
theorem lt_of_unsigned {width n : Nat} {input rest : Bytes}
    (h : unsigned width input = some (n, rest)) : n < 2 ^ width := by
  induction input generalizing width n with
  | nil => cases h
  | cons b input ih =>
    unfold unsigned at h
    split at h
    · split at h
      · next hw => cases h; rwa [Nat.one_shiftLeft] at hw
      · cases h
    · split at h
      · cases h
      · next hw =>
        split at h
        · cases h
        · next high after hrest =>
          cases h
          have hhigh := ih hrest
          have hb := b.toNat_lt
          have hpow : 2 ^ width = 128 * 2 ^ (width - 7) := by
            rw [← Nat.pow_add 2 7, show 7 + (width - 7) = width by omega]
          omega

/-- A wider reader takes the same number from the same bytes. -/
theorem unsigned_mono {width wider n : Nat} {input rest : Bytes} (hw : width ≤ wider)
    (h : unsigned width input = some (n, rest)) : unsigned wider input = some (n, rest) := by
  induction input generalizing width wider n with
  | nil => cases h
  | cons b input ih =>
    unfold unsigned at h
    split at h
    · next hb =>
      split at h
      · next hfits =>
        cases h
        rw [Nat.one_shiftLeft] at hfits
        exact unsigned_cons hb (Nat.lt_of_lt_of_le hfits (Nat.pow_le_pow_right (by omega) hw))
      · cases h
    · next hb =>
      split at h
      · cases h
      · next h7 =>
        split at h
        · cases h
        · next hrest =>
          cases h
          exact unsigned_cons_more (by omega) (by omega) (ih (by omega) hrest)

theorem size_encode {n : Nat} (hn : n < 2 ^ 32) (more : Bytes) :
    size (encode n ++ more) = some (n, more) := unsigned_encode hn more

theorem index_encode (i : UInt32) (more : Bytes) :
    index (encode i.toNat ++ more) = some (i, more) := by
  rw [index, map_of_eq_some (size_encode i.toNat_lt more), UInt32.ofNat_toNat]

end Leb128

/-! ### Counted entries -/

namespace Reader

variable {α β : Type}

/-- `item` takes just `bytes`, whatever follows them, and makes `value` of them. -/
def Reads (item : Reader α) (bytes : Bytes) (value : α) : Prop :=
  ∀ more, item (bytes ++ more) = some (value, more)

/-- `item` takes just `bytes` and makes `value` of them, or it fails. -/
def ReadsAtMost (item : Reader α) (bytes : Bytes) (value : α) : Prop :=
  ∀ more read, item (bytes ++ more) = some read → read = (value, more)

theorem whole_eq_some {item : Reader α} {input : Bytes} {value : α}
    (h : item.whole input = some value) : item input = some (value, []) := by
  unfold whole at h
  split at h
  · next hitem => cases h; exact hitem
  · cases h

theorem whole_of_eq_some {item : Reader α} {input : Bytes} {value : α}
    (h : item input = some (value, [])) : item.whole input = some value := by
  rw [whole, h]

theorem times_succ {item : Reader α} {n : Nat} {input middle rest : Bytes} {first : α}
    {others : List α} (h : item input = some (first, middle))
    (hothers : times item n middle = some (others, rest)) :
    times item (n + 1) input = some (first :: others, rest) := by
  rw [times, bind_of_eq_some h, bind_of_eq_some hothers]
  rfl

theorem times_succ_eq_some {item : Reader α} {n : Nat} {input rest : Bytes} {values : List α}
    (h : times item (n + 1) input = some (values, rest)) :
    ∃ first middle others, item input = some (first, middle) ∧
      times item n middle = some (others, rest) ∧ values = first :: others := by
  rw [times] at h
  obtain ⟨first, middle, hfirst, h⟩ := bind_eq_some h
  obtain ⟨others, after, hothers, h⟩ := bind_eq_some h
  cases h
  exact ⟨first, middle, others, hfirst, hothers, rfl⟩

theorem length_of_times {item : Reader α} {n : Nat} {input rest : Bytes} {values : List α}
    (h : times item n input = some (values, rest)) : values.length = n := by
  induction n generalizing input values with
  | zero => cases h; rfl
  | succ n ih =>
    obtain ⟨first, middle, others, -, hothers, rfl⟩ := times_succ_eq_some h
    rw [List.length_cons, ih hothers]

/-- Entries, then more entries. -/
theorem times_add {item : Reader α} {n k : Nat} {input : Bytes} {values : List α}
    {middle : Bytes} (h : times item n input = some (values, middle)) :
    times item (n + k) input =
      (times item k middle).map fun read => (values ++ read.1, read.2) := by
  induction n generalizing input values with
  | zero =>
    cases h
    rw [Nat.zero_add]
    cases times item k middle <;> rfl
  | succ n ih =>
    obtain ⟨first, after, others, hfirst, hothers, rfl⟩ := times_succ_eq_some h
    rw [show n + 1 + k = n + k + 1 by omega, times, bind_of_eq_some hfirst]
    simp only [bind, StateT.bind, ih hothers]
    cases times item k middle <;> rfl

/-- Written entries are read back one by one. -/
theorem times_flatMap {item : Reader β} {encode : α → Bytes} {decode : α → β} {values : List α}
    (h : ∀ v ∈ values, Reads item (encode v) (decode v)) (more : Bytes) :
    times item values.length (values.flatMap encode ++ more) =
      some (values.map decode, more) := by
  induction values with
  | nil => rfl
  | cons v values ih =>
    rw [List.flatMap_cons, List.append_assoc, List.length_cons, List.map_cons]
    exact times_succ (h v (by simp) _) (ih fun w hw => h w (by simp [hw]))

/-- Written entries that are read at all are read back one by one. -/
theorem times_flatMap_atMost {item : Reader β} {encode : α → Bytes} {decode : α → β}
    {values : List α} (h : ∀ v ∈ values, ReadsAtMost item (encode v) (decode v)) {more rest : Bytes}
    {read : List β}
    (hread : times item values.length (values.flatMap encode ++ more) = some (read, rest)) :
    read = values.map decode ∧ rest = more := by
  induction values generalizing read with
  | nil => cases hread; exact ⟨rfl, rfl⟩
  | cons v values ih =>
    rw [List.flatMap_cons, List.append_assoc, List.length_cons] at hread
    obtain ⟨first, middle, others, hfirst, hothers, rfl⟩ := times_succ_eq_some hread
    cases h v (by simp) _ _ hfirst
    obtain ⟨rfl, hrest⟩ := ih (fun w hw => h w (by simp [hw])) hothers
    exact ⟨rfl, hrest⟩

theorem counted_eq_some {item : Reader α} {input rest : Bytes} {values : List α}
    (h : counted item input = some (values, rest)) :
    ∃ entries, Leb128.size input = some (values.length, entries) ∧
      times item values.length entries = some (values, rest) := by
  obtain ⟨count, entries, hcount, htimes⟩ := bind_eq_some h
  cases length_of_times htimes
  exact ⟨entries, hcount, htimes⟩

theorem counted_encode {item : Reader α} {n : Nat} (hn : n < 2 ^ 32) (entries : Bytes) :
    counted item (Leb128.encode n ++ entries) = times item n entries :=
  bind_of_eq_some (Leb128.size_encode hn entries)

end Reader

namespace Entries

variable {α β : Type}

theorem count_ofList {encode : α → Bytes} {values : List α} (h : values.length < 2 ^ 32) :
    (ofList encode values).count.toNat = values.length := UInt32.toNat_ofNat_of_lt' h

/-- A section of its own gives back the entries. -/
theorem whole_contents {item : Reader β} {encode : α → Bytes} {decode : α → β} {values : List α}
    (hlength : values.length < 2 ^ 32) (h : ∀ v ∈ values, Reads item (encode v) (decode v)) :
    (counted item).whole (ofList encode values).contents = some (values.map decode) := by
  refine whole_of_eq_some ?_
  rw [contents, count_ofList hlength, counted_encode hlength]
  simpa [ofList] using times_flatMap h []

/-- The count before the old entries may be padded: it is the same to the reader that takes it here. -/
theorem appendTo_of_size {entries : Entries} {kind : SectionKind} {old bytes : Bytes} {n : Nat}
    (hold : Leb128.size old = some (n, bytes)) :
    entries.appendTo kind old = if n + entries.count.toNat < 2 ^ 32 then
      .ok (Leb128.encode (n + entries.count.toNat) ++ (bytes ++ entries.bytes))
    else .error (.tooManyEntries kind) := by
  have hold64 : Leb128.unsigned 64 old = some (n, bytes) := Leb128.unsigned_mono (by omega) hold
  rw [appendTo, hold64]
  simp only [List.append_assoc]
  rfl

theorem appendTo_eq_ok {entries : Entries} {kind : SectionKind} {old contents : Bytes} {n : Nat}
    {bytes : Bytes} (hold : Leb128.size old = some (n, bytes))
    (h : entries.appendTo kind old = .ok contents) :
    n + entries.count.toNat < 2 ^ 32 ∧
      contents = Leb128.encode (n + entries.count.toNat) ++ (bytes ++ entries.bytes) := by
  rw [appendTo_of_size hold] at h
  split at h
  · next hlt =>
    cases h
    exact ⟨hlt, rfl⟩
  · cases h

/-- Entries that do not depend on what follows them, with others behind them. -/
theorem whole_counted_append {item : Reader α} [Extensible item] {n k : Nat} {old new : Bytes}
    {first second : List α} (hlt : n + k < 2 ^ 32) (hfirst : (times item n).whole old = some first)
    (hsecond : (times item k).whole new = some second) :
    (counted item).whole (Leb128.encode (n + k) ++ (old ++ new)) = some (first ++ second) := by
  refine whole_of_eq_some ?_
  rw [counted_encode hlt, times_add (Extensible.append (whole_eq_some hfirst) new),
    List.nil_append, whole_eq_some hsecond]
  rfl

/-- A section that entries were added to gives back the old entries and after them the new ones. -/
theorem whole_appendTo {item : Reader β} [Extensible item] {encode : α → Bytes} {decode : α → β}
    {values : List α} {kind : SectionKind} {old contents : Bytes} {oldValues : List β}
    (hlength : values.length < 2 ^ 32) (h : ∀ v ∈ values, Reads item (encode v) (decode v))
    (hold : (counted item).whole old = some oldValues)
    (hcontents : (ofList encode values).appendTo kind old = .ok contents) :
    (counted item).whole contents = some (oldValues ++ values.map decode) := by
  obtain ⟨bytes, hsize, htimes⟩ := counted_eq_some (whole_eq_some hold)
  obtain ⟨hsum, rfl⟩ := appendTo_eq_ok hsize hcontents
  have hnew := times_flatMap h []
  rw [List.append_nil] at hnew
  rw [count_ofList hlength] at hsum ⊢
  exact whole_counted_append hsum (whole_of_eq_some htimes) (whole_of_eq_some hnew)

/-- As `whole_appendTo`, of entries that are read back if at all. -/
theorem eq_of_whole_appendTo {item : Reader β} [Extensible item] {encode : α → Bytes}
    {decode : α → β} {values : List α} {kind : SectionKind} {old contents : Bytes}
    {oldValues read : List β} (hlength : values.length < 2 ^ 32)
    (h : ∀ v ∈ values, ReadsAtMost item (encode v) (decode v))
    (hold : (counted item).whole old = some oldValues)
    (hcontents : (ofList encode values).appendTo kind old = .ok contents)
    (hread : (counted item).whole contents = some read) :
    read = oldValues ++ values.map decode := by
  obtain ⟨bytes, hsize, htimes⟩ := counted_eq_some (whole_eq_some hold)
  obtain ⟨hsum, rfl⟩ := appendTo_eq_ok hsize hcontents
  have hcounted := whole_eq_some hread
  rw [counted_encode hsum, times_add (Extensible.append htimes _), count_ofList hlength,
    Option.map_eq_some_iff] at hcounted
  obtain ⟨⟨new, rest⟩, hnew, heq⟩ := hcounted
  cases heq
  rw [List.nil_append, ofList] at hnew
  simp only at hnew
  rw [← List.append_nil (values.flatMap encode)] at hnew
  rw [(times_flatMap_atMost h hnew).1]

/-- As `whole_contents`, of entries that are read back if at all. -/
theorem eq_of_whole_contents {item : Reader β} {encode : α → Bytes} {decode : α → β}
    {values : List α} {read : List β} (hlength : values.length < 2 ^ 32)
    (h : ∀ v ∈ values, ReadsAtMost item (encode v) (decode v))
    (hread : (counted item).whole (ofList encode values).contents = some read) :
    read = values.map decode := by
  have hcounted := whole_eq_some hread
  rw [contents, count_ofList hlength, counted_encode hlength, ofList] at hcounted
  simp only at hcounted
  rw [← List.append_nil (values.flatMap encode)] at hcounted
  exact (times_flatMap_atMost h hcounted).1

end Entries

end WasmSnapshot
