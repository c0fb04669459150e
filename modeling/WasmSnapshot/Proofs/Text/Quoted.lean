import Mathlib.Algebra.GroupWithZero.Nat
import Mathlib.Data.List.Basic
import Mathlib.Data.Option.Basic
import WasmSnapshot.Text.Quoted

/-! Strings between quotes, written and read back. Reading goes escape by escape, and each character
is written as one, so it is enough to know what reading makes of one character before any others. -/

namespace WasmSnapshot

/-- Past a condition that holds. It is stated for any condition, as one on numbers of 32 bits must not
be evaluated. -/
theorem Option.bind_guard {α : Type} {p : Prop} [Decidable p] (h : p) (next : Option α) :
    (guard p >>= fun _ => next) = next := by
  rw [guard, if_pos h]
  rfl

namespace Quoted

theorem hexValue?_hexDigit {n : Nat} (h : n < 16) : hexValue? (hexDigit n) = some n := by
  have hall : ∀ n < 16, hexValue? (hexDigit n) = some n := by decide
  exact hall n h

/-- What a character may be written as, so that it is read back. -/
inductive WrittenAs (c : Char) : List Char → Prop
  | short {e} (hne : e ≠ 'u') (hmeaning : shortMeaning? e = some c) : WrittenAs c ['\\', e]
  | code {a b} (hcode : hex4? '0' '0' a b = some c.toNat) :
      WrittenAs c ['\\', 'u', '0', '0', a, b]
  | plain (hcontrol : isControl c = false) (hslash : c ≠ '\\') (hquote : c ≠ '"') :
      WrittenAs c [c]

theorem writtenAs_of_shortEscape? {c e : Char} (h : shortEscape? c = some e) :
    WrittenAs c ['\\', e] := by
  unfold shortEscape? at h
  repeat' split at h
  all_goals first
    | cases h; subst c; exact .short (by decide) (by decide)
    | cases h

theorem writtenAs_escapeChar (c : Char) : WrittenAs c (escapeChar c) := by
  unfold escapeChar
  split
  · next e he => exact writtenAs_of_shortEscape? he
  · next hnone =>
    split
    · next hcontrol =>
      have hlt : c.toNat < 32 := of_decide_eq_true hcontrol
      apply WrittenAs.code
      have hzero : hexValue? '0' = some 0 := by decide
      simp only [hex4?, hzero, hexValue?_hexDigit (show c.toNat / 16 < 16 by omega),
        hexValue?_hexDigit (show c.toNat % 16 < 16 by omega), Option.bind_eq_bind,
        Option.bind_some, Option.pure_def]
      congr 1
      omega
    · next hcontrol =>
      apply WrittenAs.plain (by simpa using hcontrol)
      · rintro rfl
        cases hnone
      · rintro rfl
        cases hnone

namespace WrittenAs

variable {c : Char} {form : List Char}

theorem scan_append (h : WrittenAs c form) (text : List Char) :
    scan (form ++ text) = (scan text).map fun found => (form ++ found.1, found.2) := by
  cases h with
  | @short e hne hmeaning =>
    simp only [List.cons_append, List.nil_append]
    rw [scan]
    · simp only [hmeaning, Option.bind_eq_bind, Option.bind_some]
      cases scan text <;> rfl
    · intro _ _ _ _ _ he _
      exact hne he
  | @code a b hcode =>
    simp only [List.cons_append, List.nil_append]
    rw [scan]
    simp only [hcode, Option.bind_eq_bind, Option.bind_some]
    cases scan text <;> rfl
  | plain hcontrol hslash hquote =>
    simp only [List.cons_append, List.nil_append]
    rw [scan]
    · have hallowed : (!isControl c && c != '\\') = true := by simp [hcontrol, hslash]
      rw [Option.bind_guard hallowed]
      cases scan text <;> rfl
    · exact hquote
    · intro _ _ _ _ _ hc _
      exact hslash hc
    · intro _ _ hc _
      exact hslash hc

theorem codes_append (h : WrittenAs c form) (text : List Char) :
    codes (form ++ text) = (codes text).map (c.toNat :: ·) := by
  cases h with
  | @short e hne hmeaning =>
    simp only [List.cons_append, List.nil_append]
    rw [codes]
    · simp only [hmeaning, Option.bind_eq_bind, Option.bind_some]
      cases codes text <;> rfl
    · intro _ _ _ _ _ he _
      exact hne he
  | @code a b hcode =>
    simp only [List.cons_append, List.nil_append]
    rw [codes]
    simp only [hcode, Option.bind_eq_bind, Option.bind_some]
    cases codes text <;> rfl
  | plain hcontrol hslash hquote =>
    simp only [List.cons_append, List.nil_append]
    rw [codes]
    · have hallowed : (!isControl c && c != '\\' && c != '"') = true := by
        simp [hcontrol, hslash, hquote]
      rw [Option.bind_guard hallowed]
      cases codes text <;> rfl
    · intro _ _ _ _ _ hc _
      exact hslash hc
    · intro _ _ hc _
      exact hslash hc

end WrittenAs

/-- The end of a string is the quote behind it, whatever the string holds. -/
theorem scan_escape (text rest : List Char) :
    scan (escape text ++ '"' :: rest) = some (escape text, rest) := by
  induction text with
  | nil => rfl
  | cons c text ih =>
    rw [escape, List.flatMap_cons, List.append_assoc, (writtenAs_escapeChar c).scan_append]
    rw [escape] at ih
    rw [ih]
    rfl

theorem codes_escape (text : List Char) : codes (escape text) = some (text.map Char.toNat) := by
  induction text with
  | nil => rfl
  | cons c text ih =>
    rw [escape, List.flatMap_cons, (writtenAs_escapeChar c).codes_append]
    rw [escape] at ih
    rw [ih]
    rfl

/-- No character is half of a surrogate pair. -/
theorem not_half (c : Char) : isHigh c.toNat = false ∧ isLow c.toNat = false := by
  have hvalid : c.toNat < 0xd800 ∨ 0xdfff < c.toNat ∧ c.toNat < 0x110000 := c.valid
  simp only [isHigh, isLow, Bool.and_eq_false_iff, decide_eq_false_iff_not]
  omega

theorem characters_map_toNat (text : List Char) :
    characters (text.map Char.toNat) = some text := by
  induction text with
  | nil => rfl
  | cons c text ih =>
    obtain ⟨hhigh, hlow⟩ := not_half c
    cases text with
    | nil => simp [characters, hhigh, hlow]
    | cons next text =>
      simp only [List.map_cons] at ih ⊢
      simp [characters, hhigh, hlow, ih]

/-- Every text is read back from its written form. -/
theorem unescape?_escape (text : List Char) : unescape? (escape text) = some text := by
  simp only [unescape?, codes_escape, Option.bind_eq_bind, Option.bind_some, characters_map_toNat]

end Quoted

end WasmSnapshot
