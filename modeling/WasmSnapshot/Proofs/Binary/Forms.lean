import WasmSnapshot.Proofs.Binary.Leb128

/-! The forms of a number in the binary format, apart from any reader: seven bits to a byte, all bytes
but the last one marked. A number has many forms, since zeros may stand at its upper end, and the one
that is written is shorter than all others. No form begins another one, so where a form ends can be
told from the bytes themselves. A reader takes the forms of the numbers of its width that are not
padded beyond the length which such numbers need. -/

namespace WasmSnapshot.Leb128

/-- The bytes are a form of the number. -/
inductive Form : Bytes → Nat → Prop
  | last {b : UInt8} (hb : b.toNat < 128) : Form [b] b.toNat
  | more {b : UInt8} {form : Bytes} {high : Nat} (hb : 128 ≤ b.toNat) (hform : Form form high) :
      Form (b :: form) (b.toNat - 128 + 128 * high)

variable {form other rest rest' input : Bytes} {width m n : Nat}

theorem Form.ne_nil (h : Form form n) : form ≠ [] := by
  cases h <;> exact List.cons_ne_nil _ _

theorem encode_of_lt (h : n < 128) : encode n = [UInt8.ofNat n] := by rw [encode, if_pos h]

theorem encode_of_le (h : 128 ≤ n) :
    encode n = UInt8.ofNat (n % 128 + 128) :: encode (n / 128) := by
  rw [encode, if_neg (by omega)]

theorem form_encode (n : Nat) : Form (encode n) n := by
  induction n using encode.induct with
  | case1 n hlt =>
    have hb : (UInt8.ofNat n).toNat = n := UInt8.toNat_ofNat_of_lt' (by simp [UInt8.size]; omega)
    have hform := Form.last (b := UInt8.ofNat n) (by omega)
    rwa [hb, ← encode_of_lt hlt] at hform
  | case2 n hge ih =>
    have hb : (UInt8.ofNat (n % 128 + 128)).toNat = n % 128 + 128 :=
      UInt8.toNat_ofNat_of_lt' (by simp [UInt8.size]; omega)
    have hform := Form.more (b := UInt8.ofNat (n % 128 + 128)) (by omega) ih
    rwa [hb, ← encode_of_le (by omega), show n % 128 + 128 - 128 + 128 * (n / 128) = n by omega]
      at hform

/-- Where a form ends is told by its bytes. -/
theorem Form.append_inj (h : Form form m) (h' : Form other n)
    (heq : form ++ rest = other ++ rest') : form = other ∧ m = n ∧ rest = rest' := by
  induction h generalizing other n with
  | last hb =>
    cases h' with
    | last hb' =>
      obtain ⟨rfl, rfl⟩ := List.cons.inj heq
      exact ⟨rfl, rfl, rfl⟩
    | more hb' =>
      obtain ⟨rfl, -⟩ := List.cons.inj heq
      omega
  | more hb hform ih =>
    cases h' with
    | last hb' =>
      obtain ⟨rfl, -⟩ := List.cons.inj heq
      omega
    | more hb' hother =>
      obtain ⟨rfl, hafter⟩ := List.cons.inj heq
      obtain ⟨rfl, rfl, rfl⟩ := ih hother hafter
      exact ⟨rfl, rfl, rfl⟩

/-- All other forms are longer than the one that is written. -/
theorem Form.eq_encode (h : Form form n) (hlength : form.length ≤ (encode n).length) :
    form = encode n := by
  induction h with
  | @last b hb => rw [encode_of_lt hb, UInt8.ofNat_toNat]
  | @more b form high hb hform ih =>
    have hlt := b.toNat_lt
    rcases Nat.lt_or_ge (b.toNat - 128 + 128 * high) 128 with hsmall | hlarge
    · -- One byte is enough, so a form that goes on after the first byte is longer.
      rw [encode_of_lt hsmall, List.length_cons, List.length_singleton, Nat.succ_le_iff,
        Nat.lt_one_iff] at hlength
      exact absurd (List.length_eq_zero_iff.1 hlength) hform.ne_nil
    · have hhigh : (b.toNat - 128 + 128 * high) / 128 = high := by omega
      have hbyte : UInt8.ofNat ((b.toNat - 128 + 128 * high) % 128 + 128) = b := by
        rw [show (b.toNat - 128 + 128 * high) % 128 + 128 = b.toNat by omega, UInt8.ofNat_toNat]
      rw [encode_of_le hlarge, hhigh] at hlength ⊢
      rw [hbyte, ← ih (Nat.le_of_succ_le_succ hlength)]

/-! ### Readers -/

theorem form_of_unsigned (hwidth : 0 < width) (h : unsigned width input = some (n, rest)) :
    ∃ form, input = form ++ rest ∧ Form form n ∧ 7 * form.length < width + 7 := by
  induction input generalizing width n with
  | nil => cases h
  | cons b input ih =>
    unfold unsigned at h
    split at h
    · next hb =>
      split at h
      · cases h
        exact ⟨[b], rfl, .last hb, by rw [List.length_singleton]; omega⟩
      · cases h
    · next hb =>
      split at h
      · cases h
      · next hmore =>
        split at h
        · cases h
        · next high after hhigh =>
          cases h
          obtain ⟨form, rfl, hform, hlength⟩ := ih (by omega) hhigh
          exact ⟨b :: form, rfl, .more (by omega) hform, by rw [List.length_cons]; omega⟩

theorem Form.unsigned_append (h : Form form n) (hn : n < 2 ^ width)
    (hlength : 7 * form.length < width + 7) (rest : Bytes) :
    unsigned width (form ++ rest) = some (n, rest) := by
  induction h generalizing width with
  | last hb => exact unsigned_cons hb hn
  | @more b form high hb hform ih =>
    rw [List.length_cons] at hlength
    have hpos := List.length_pos_iff.2 hform.ne_nil
    have hpow : 2 ^ width = 128 * 2 ^ (width - 7) := by
      rw [← Nat.pow_add 2 7, show 7 + (width - 7) = width by omega]
    exact unsigned_cons_more hb (by omega) (ih (by omega) (by omega))

/-- What a reader takes for a number. -/
theorem unsigned_eq_some_iff (hwidth : 0 < width) : unsigned width input = some (n, rest) ↔
    ∃ form, input = form ++ rest ∧ Form form n ∧ n < 2 ^ width ∧ 7 * form.length < width + 7 := by
  constructor
  · intro h
    obtain ⟨form, hinput, hform, hlength⟩ := form_of_unsigned hwidth h
    exact ⟨form, hinput, hform, lt_of_unsigned h, hlength⟩
  · rintro ⟨form, rfl, hform, hn, hlength⟩
    exact hform.unsigned_append hn hlength rest

/-- A number of 32 bits may be padded up to five bytes. -/
theorem size_eq_some_iff : size input = some (n, rest) ↔
    ∃ form, input = form ++ rest ∧ Form form n ∧ n < 2 ^ 32 ∧ form.length ≤ 5 := by
  rw [size, unsigned_eq_some_iff (by decide)]
  refine exists_congr fun form => ?_
  rw [show 7 * form.length < 32 + 7 ↔ form.length ≤ 5 by omega]

end WasmSnapshot.Leb128
