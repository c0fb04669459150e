import Mathlib.Algebra.GroupWithZero.Nat
import Mathlib.Data.List.Basic
import Mathlib.Data.List.Induction
import WasmSnapshot.Text.Decimal

/-! Decimal numerals: the grammar by which they are read, and those that are written. -/

namespace WasmSnapshot.Decimal

theorem value_append_singleton (cs : List Char) (c : Char) :
    value (cs ++ [c]) = 10 * value cs + digitValue c := by
  simp [value]

theorem isDigit_digitChar {d : Nat} (h : d < 10) : isDigit (digitChar d) = true := by
  have hall : ∀ d < 10, isDigit (digitChar d) = true := by decide
  exact hall d h

theorem digitValue_digitChar {d : Nat} (h : d < 10) : digitValue (digitChar d) = d := by
  have hall : ∀ d < 10, digitValue (digitChar d) = d := by decide
  exact hall d h

theorem value_digits (n : Nat) : value (digits n) = n := by
  induction n using digits.induct with
  | case1 n hlt =>
    rw [digits, if_pos hlt]
    simp [value, digitValue_digitChar hlt]
  | case2 n hge ih =>
    rw [digits, if_neg hge, value_append_singleton, ih,
      digitValue_digitChar (Nat.mod_lt n (by omega))]
    omega

theorem all_isDigit_digits (n : Nat) : (digits n).all isDigit = true := by
  induction n using digits.induct with
  | case1 n hlt =>
    rw [digits, if_pos hlt]
    simp [isDigit_digitChar hlt]
  | case2 n hge ih =>
    rw [digits, if_neg hge]
    simp [ih, isDigit_digitChar (Nat.mod_lt n (show 0 < 10 by omega))]

theorem digits_ne_nil (n : Nat) : digits n ≠ [] := by
  rw [digits]
  split <;> simp

/-- A numeral is read as its number. -/
theorem read?_digits (n : Nat) : read? (digits n) = some n := by
  rw [read?, if_pos ⟨digits_ne_nil n, all_isDigit_digits n⟩, value_digits]

/-- A numeral begins with a digit, which is no zero unless it stands alone. -/
theorem digits_eq_cons (n : Nat) :
    ∃ c cs, digits n = c :: cs ∧ isDigit c = true ∧ (c = '0' → n = 0) := by
  induction n using digits.induct with
  | case1 n hlt =>
    have hall : ∀ n < 10, digitChar n = '0' → n = 0 := by decide
    rw [digits, if_pos hlt]
    exact ⟨_, [], rfl, isDigit_digitChar hlt, hall n hlt⟩
  | case2 n hge ih =>
    obtain ⟨c, cs, hdigits, hdigit, hzero⟩ := ih
    rw [digits, if_neg hge, hdigits]
    refine ⟨c, _, List.cons_append, hdigit, fun hc => ?_⟩
    have := hzero hc
    omega

/-- The grammar of numerals: one digit, or a digit more. A digit stands for its place among the ten,
and what stands before it counts ten times. -/
inductive Numeral : List Char → Nat → Prop
  | digit {c : Char} {d : Nat} (h : "0123456789".toList[d]? = some c) : Numeral [c] d
  | snoc {cs : List Char} {n : Nat} {c : Char} {d : Nat} (hcs : Numeral cs n)
      (h : "0123456789".toList[d]? = some c) : Numeral (cs ++ [c]) (10 * n + d)

theorem digitChar_digitValue {c : Char} (h : isDigit c = true) :
    digitValue c < 10 ∧ digitChar (digitValue c) = c := by
  simp only [isDigit, Bool.and_eq_true, decide_eq_true_eq, Char.le_def, UInt32.le_iff_toNat_le] at h
  have hle : 48 ≤ c.toNat := h.1
  have hge : c.toNat ≤ 57 := h.2
  rw [digitChar, digitValue, Nat.sub_add_cancel hle, Char.ofNat_toNat]
  exact ⟨by omega, rfl⟩

/-- A digit is read as its place among the ten. -/
theorem getElem?_digits_iff {c : Char} {d : Nat} :
    "0123456789".toList[d]? = some c ↔ isDigit c = true ∧ digitValue c = d := by
  have hall : ∀ d < 10, "0123456789".toList[d]? = some (digitChar d) := by decide
  constructor
  · intro h
    have hlt : d < 10 := (List.getElem?_eq_some_iff.1 h).1
    rw [hall d hlt, Option.some.injEq] at h
    rw [← h]
    exact ⟨isDigit_digitChar hlt, digitValue_digitChar hlt⟩
  · rintro ⟨hdigit, rfl⟩
    obtain ⟨hlt, hchar⟩ := digitChar_digitValue hdigit
    rw [hall _ hlt, hchar]

theorem Numeral.row {cs : List Char} {n : Nat} (h : Numeral cs n) :
    cs ≠ [] ∧ cs.all isDigit = true ∧ value cs = n := by
  induction h with
  | digit h =>
    obtain ⟨hdigit, rfl⟩ := getElem?_digits_iff.1 h
    exact ⟨by simp, by simp [hdigit], by simp [value]⟩
  | snoc hcs h ih =>
    obtain ⟨hdigit, rfl⟩ := getElem?_digits_iff.1 h
    obtain ⟨-, hall, hvalue⟩ := ih
    exact ⟨by simp, by simp [hall, hdigit], by rw [value_append_singleton, hvalue]⟩

theorem numeral_value {cs : List Char} (hne : cs ≠ []) (hall : cs.all isDigit = true) :
    Numeral cs (value cs) := by
  induction cs using List.reverseRecOn with
  | nil => exact absurd rfl hne
  | append_singleton cs c ih =>
    rw [List.all_append, Bool.and_eq_true, List.all_cons, Bool.and_eq_true] at hall
    obtain ⟨hcs, hc, -⟩ := hall
    have hplace := getElem?_digits_iff.2 ⟨hc, rfl⟩
    by_cases hnil : cs = []
    · subst hnil
      have hvalue : value [c] = digitValue c := by simp [value]
      rw [List.nil_append, hvalue]
      exact Numeral.digit hplace
    · rw [value_append_singleton]
      exact Numeral.snoc (ih hnil hcs) hplace

/-- The numerals that are read are those of the grammar. -/
theorem read?_eq_some_iff {cs : List Char} {n : Nat} : read? cs = some n ↔ Numeral cs n := by
  constructor
  · intro h
    unfold read? at h
    split at h
    · next hdigits =>
      cases h
      exact numeral_value hdigits.1 hdigits.2
    · cases h
  · intro h
    obtain ⟨hne, hall, rfl⟩ := h.row
    rw [read?, if_pos ⟨hne, hall⟩]

theorem digits_snoc {n d : Nat} (hd : d < 10) (hn : n ≠ 0) :
    digits (10 * n + d) = digits n ++ [digitChar d] := by
  rw [digits, if_neg (by omega), show (10 * n + d) / 10 = n by omega,
    show (10 * n + d) % 10 = d by omega]

/-- The numerals of a number are the one that is written, and that one behind zeros. -/
theorem numeral_iff_zeros {cs : List Char} {n : Nat} :
    Numeral cs n ↔ ∃ zeros, cs = List.replicate zeros '0' ++ digits n := by
  constructor
  · intro h
    induction h with
    | @digit c d h =>
      obtain ⟨hdigit, rfl⟩ := getElem?_digits_iff.1 h
      obtain ⟨hlt, hc⟩ := digitChar_digitValue hdigit
      refine ⟨0, ?_⟩
      rw [digits, if_pos hlt, hc]
      rfl
    | @snoc cs n c d hcs h ih =>
      obtain ⟨hdigit, rfl⟩ := getElem?_digits_iff.1 h
      obtain ⟨hlt, hc⟩ := digitChar_digitValue hdigit
      obtain ⟨zeros, rfl⟩ := ih
      by_cases hn : n = 0
      · -- The numeral of zero is one more zero before the next digit.
        subst hn
        refine ⟨zeros + 1, ?_⟩
        rw [Nat.mul_zero, Nat.zero_add, digits, if_pos (by omega), digits, if_pos hlt, hc,
          List.replicate_succ']
        rfl
      · exact ⟨zeros, by rw [digits_snoc hlt hn, hc, List.append_assoc]⟩
  · rintro ⟨zeros, rfl⟩
    induction zeros with
    | zero => exact read?_eq_some_iff.1 (read?_digits n)
    | succ zeros ih =>
      obtain ⟨hne, hall, hvalue⟩ := ih.row
      rw [List.replicate_succ, List.cons_append]
      have hrow := numeral_value (List.cons_ne_nil '0' (List.replicate zeros '0' ++ digits n))
        (by rw [List.all_cons, hall]; rfl)
      rwa [show value ('0' :: (List.replicate zeros '0' ++ digits n)) = n from hvalue] at hrow

end WasmSnapshot.Decimal
