import Mathlib.Data.List.TakeDrop
import WasmSnapshot.Json.Reader
import WasmSnapshot.Proofs.Text.Decimal
import WasmSnapshot.Proofs.Text.Quoted

/-! JSON text, written and read back. What is written has no blanks, and behind a value stands a
comma, a closing bracket or nothing, so that a numeral ends where it was meant to. -/

namespace WasmSnapshot.Json

/-- Texts that stand behind a value, or behind a list of values. -/
inductive Closes : List Char → Prop
  | nil : Closes []
  | comma (rest) : Closes (',' :: rest)
  | bracket (rest) : Closes (']' :: rest)
  | brace (rest) : Closes ('}' :: rest)

variable {rest : List Char}

/-! ### Numerals -/

theorem scanDigits_append {digits : List Char} (hne : digits ≠ [])
    (hdigits : digits.all Decimal.isDigit = true) (hrest : Closes rest) :
    scanDigits (digits ++ rest) = some (digits, rest) := by
  have hspan : (digits ++ rest).span Decimal.isDigit = (digits, rest) := by
    rw [List.span_eq_takeWhile_dropWhile]
    rw [List.all_eq_true] at hdigits
    rw [List.takeWhile_append_of_pos hdigits, List.dropWhile_append_of_pos hdigits]
    cases hrest <;> simp [Decimal.isDigit]
  rw [scanDigits, hspan]
  simp [hne]

theorem scanUnsigned_digits (n : Nat) (hrest : Closes rest) :
    scanUnsigned (Decimal.digits n ++ rest) = some (Decimal.digits n, rest) := by
  have hwhole : scanWhole (Decimal.digits n ++ rest) = some (Decimal.digits n, rest) := by
    obtain ⟨c, cs, hdigits, hdigit, hzero⟩ := Decimal.digits_eq_cons n
    by_cases hc : c = '0'
    · rw [hzero hc, Decimal.digits]
      rfl
    · have hscan := scanDigits_append (Decimal.digits_ne_nil n) (Decimal.all_isDigit_digits n) hrest
      rw [hdigits, List.cons_append] at hscan ⊢
      rw [scanWhole]
      · exact hscan
      · intro _ h
        exact hc (List.cons.inj h).1
  have hfraction : scanFraction rest = some ([], rest) := by
    cases hrest <;> rfl
  have hexponent : scanExponent rest = some ([], rest) := by
    cases hrest <;> rfl
  simp only [scanUnsigned, hwhole, hfraction, hexponent, Option.bind_eq_bind, Option.bind_some,
    Option.pure_def, List.append_nil]

theorem scanNumber_ofInt (n : Int) (hrest : Closes rest) :
    scanNumber (Decimal.ofInt n ++ rest) = some (Decimal.ofInt n, rest) := by
  cases n with
  | ofNat n =>
    have hscan := scanUnsigned_digits n hrest
    obtain ⟨c, cs, hdigits, hdigit, -⟩ := Decimal.digits_eq_cons n
    rw [Decimal.ofInt]
    rw [hdigits, List.cons_append] at hscan ⊢
    rw [scanNumber]
    · exact hscan
    · intro _ h
      rw [(List.cons.inj h).1] at hdigit
      cases hdigit
  | negSucc n =>
    rw [Decimal.ofInt, List.cons_append, scanNumber, scanUnsigned_digits (n + 1) hrest]
    rfl

theorem integer?_ofInt (n : Int) : integer? (Decimal.ofInt n) = some n := by
  cases n with
  | ofNat n =>
    have hread := Decimal.read?_digits n
    obtain ⟨c, cs, hdigits, hdigit, -⟩ := Decimal.digits_eq_cons n
    rw [Decimal.ofInt]
    rw [hdigits] at hread ⊢
    rw [integer?, hread]
    · rfl
    · intro _ h
      rw [(List.cons.inj h).1] at hdigit
      cases hdigit
  | negSucc n =>
    rw [Decimal.ofInt, integer?, Decimal.read?_digits]
    rfl

/-- The characters that a numeral may begin with. -/
def Opens (c : Char) : Prop := Decimal.isDigit c = true ∨ c = '-'

theorem Opens.ne {c d : Char} (h : Opens c) (hdigit : Decimal.isDigit d = false) (hsign : d ≠ '-') :
    c ≠ d := by
  rintro rfl
  rcases h with h | h
  · rw [hdigit] at h
    cases h
  · exact hsign h

theorem Opens.isBlank_eq_false {c : Char} (h : Opens c) : isBlank c = false := by
  have hspace := h.ne (show Decimal.isDigit ' ' = false by decide) (by decide)
  have htab := h.ne (show Decimal.isDigit '\t' = false by decide) (by decide)
  have hfeed := h.ne (show Decimal.isDigit '\n' = false by decide) (by decide)
  have hreturn := h.ne (show Decimal.isDigit '\r' = false by decide) (by decide)
  simp [isBlank, hspace, htab, hfeed, hreturn]

theorem ofInt_eq_cons (n : Int) : ∃ c cs, Decimal.ofInt n = c :: cs ∧ Opens c := by
  cases n with
  | ofNat n =>
    obtain ⟨c, cs, hdigits, hdigit, -⟩ := Decimal.digits_eq_cons n
    exact ⟨c, cs, hdigits, .inl hdigit⟩
  | negSucc n => exact ⟨'-', _, rfl, .inr rfl⟩

/-! ### Values -/

/-- Values with strings and numerals as writing makes them. -/
inductive Written : Json → Prop
  | null : Written null
  | bool (value : Bool) : Written (bool value)
  | int (n : Int) : Written (ofInt n)
  | string (text : List Char) : Written (string (Quoted.escape text))
  | array {items} (h : ∀ item ∈ items, Written item) : Written (array items)
  | object {fields} (hkeys : ∀ field ∈ fields, ∃ key, field.1 = Quoted.escape key)
      (h : ∀ field ∈ fields, Written field.2) : Written (object fields)

/-- A value is read back from its text, whatever closes behind it. -/
def ReadBack (value : Json) : Prop :=
  ∀ depth rest, 2 * value.text.length ≤ depth → Closes rest →
    scanValue depth (value.text ++ rest) = some (value, rest)

theorem text_array (items : List Json) :
    (array items).text = '[' :: (commaSeparated (items.map text) ++ [']']) := by
  rw [text]

/-- A key with its value. -/
def fieldText (field : List Char × Json) : List Char :=
  '"' :: (field.1 ++ '"' :: ':' :: text field.2)

theorem text_object (fields : List (List Char × Json)) :
    (object fields).text = '{' :: (commaSeparated (fields.map fieldText) ++ ['}']) := by
  rw [text]
  rfl

theorem commaSeparated_cons (first next : List Char) (others : List (List Char)) :
    commaSeparated (first :: next :: others) =
      first ++ ',' :: commaSeparated (next :: others) := by
  simp [commaSeparated]

theorem commaSeparated_singleton (first : List Char) : commaSeparated [first] = first := by
  simp [commaSeparated]

theorem commaSeparated_eq_cons (c : Char) (cs : List Char) (others : List (List Char)) :
    ∃ more, commaSeparated ((c :: cs) :: others) = c :: more := by
  cases others with
  | nil => exact ⟨cs, commaSeparated_singleton _⟩
  | cons next others =>
    rw [commaSeparated_cons]
    exact ⟨_, List.cons_append⟩

/-- The text of a value begins with a token. -/
theorem Written.text_eq_cons {value : Json} (h : Written value) :
    ∃ c cs, value.text = c :: cs ∧ isBlank c = false ∧ c ≠ ']' := by
  cases h with
  | null => exact ⟨'n', _, by rw [text], by decide, by decide⟩
  | bool value =>
    cases value with
    | true => exact ⟨'t', _, by rw [text], by decide, by decide⟩
    | false => exact ⟨'f', _, by rw [text], by decide, by decide⟩
  | int n =>
    obtain ⟨c, cs, hnumeral, hopens⟩ := ofInt_eq_cons n
    refine ⟨c, cs, ?_, hopens.isBlank_eq_false, hopens.ne (by decide) (by decide)⟩
    rw [ofInt, text, hnumeral]
  | string inside => exact ⟨'"', _, by rw [text], by decide, by decide⟩
  | array items => exact ⟨'[', _, text_array _, by decide, by decide⟩
  | object fields => exact ⟨'{', _, text_object _, by decide, by decide⟩

theorem skipBlanks_cons {c : Char} (h : isBlank c = false) (cs : List Char) :
    skipBlanks (c :: cs) = c :: cs := by
  rw [skipBlanks, List.dropWhile_cons_of_neg (by simp [h])]

theorem scanValue_scalar {c : Char} (hblank : isBlank c = false) (hlist : c ≠ '[')
    (hobject : c ≠ '{') (depth : Nat) (cs : List Char) :
    scanValue (depth + 1) (c :: cs) = scanScalar (c :: cs) := by
  rw [scanValue, skipBlanks_cons hblank]
  split
  · next h => exact absurd (List.cons.inj h).1 hlist
  · next h => exact absurd (List.cons.inj h).1 hobject
  · rfl

theorem scanScalar_ofInt (n : Int) (hrest : Closes rest) :
    scanScalar (Decimal.ofInt n ++ rest) = some (ofInt n, rest) := by
  have hscan := scanNumber_ofInt n hrest
  obtain ⟨c, cs, hnumeral, hopens⟩ := ofInt_eq_cons n
  have hhead (d : Char) (hdigit : Decimal.isDigit d = false) (hsign : d ≠ '-') (others : List Char) :
      Decimal.ofInt n ++ rest ≠ d :: others := by
    rw [hnumeral, List.cons_append]
    intro h
    exact hopens.ne hdigit hsign (List.cons.inj h).1
  rw [scanScalar, hscan]
  · rfl
  · exact fun _ => hhead 'n' (by decide) (by decide) _
  · exact fun _ => hhead 't' (by decide) (by decide) _
  · exact fun _ => hhead 'f' (by decide) (by decide) _
  · exact fun _ => hhead '"' (by decide) (by decide) _

/-- A value that is no list and no object is read back once its token is. -/
theorem readBack_scalar {value : Json} {c : Char} {cs : List Char} (htext : value.text = c :: cs)
    (hblank : isBlank c = false) (hlist : c ≠ '[') (hobject : c ≠ '{')
    (hscan : ∀ rest, Closes rest → scanScalar (value.text ++ rest) = some (value, rest)) :
    ReadBack value := by
  intro depth rest hdepth hrest
  have hscan := hscan rest hrest
  rw [htext] at hdepth hscan ⊢
  cases depth with
  | zero => simp at hdepth
  | succ depth =>
    rw [List.cons_append] at hscan ⊢
    rw [scanValue_scalar hblank hlist hobject]
    exact hscan

theorem readBack_ofInt (n : Int) : ReadBack (ofInt n) := by
  obtain ⟨c, cs, hnumeral, hopens⟩ := ofInt_eq_cons n
  have htext : (ofInt n).text = Decimal.ofInt n := by rw [ofInt, text]
  apply readBack_scalar (htext.trans hnumeral) hopens.isBlank_eq_false
    (hopens.ne (by decide) (by decide)) (hopens.ne (by decide) (by decide))
  intro rest hrest
  rw [htext]
  exact scanScalar_ofInt n hrest

theorem readBack_string (inside : List Char) : ReadBack (string (Quoted.escape inside)) := by
  have htext : (string (Quoted.escape inside)).text =
      '"' :: (Quoted.escape inside ++ ['"']) := by rw [text]
  apply readBack_scalar htext (by decide) (by decide) (by decide)
  intro rest _
  rw [htext, List.cons_append, List.append_assoc, List.singleton_append, scanScalar,
    Quoted.scan_escape]
  rfl

theorem readBack_null : ReadBack null := by
  have htext : null.text = ['n', 'u', 'l', 'l'] := by rw [text]
  apply readBack_scalar htext (by decide) (by decide) (by decide)
  intro rest _
  rw [htext]
  rfl

theorem readBack_bool (value : Bool) : ReadBack (bool value) := by
  cases value with
  | true =>
    have htext : (bool true).text = ['t', 'r', 'u', 'e'] := by rw [text]
    apply readBack_scalar htext (by decide) (by decide) (by decide)
    intro rest _
    rw [htext]
    rfl
  | false =>
    have htext : (bool false).text = ['f', 'a', 'l', 's', 'e'] := by rw [text]
    apply readBack_scalar htext (by decide) (by decide) (by decide)
    intro rest _
    rw [htext]
    rfl

/-! ### Lists and objects -/

/-- Each item takes a step of depth, and so does the comma behind it. -/
theorem scanItems_text {items : List Json} (hne : items ≠ []) (h : ∀ item ∈ items, ReadBack item)
    (before : List Json) {depth : Nat}
    (hdepth : 2 * (commaSeparated (items.map text)).length < depth) (rest : List Char) :
    scanItems depth before (commaSeparated (items.map text) ++ ']' :: rest) =
      some (array (before.reverse ++ items), rest) := by
  induction items generalizing before depth with
  | nil => exact absurd rfl hne
  | cons item items ih =>
    obtain ⟨hitem, hitems⟩ := List.forall_mem_cons.1 h
    cases depth with
    | zero => omega
    | succ depth =>
      cases items with
      | nil =>
        rw [List.map_cons, List.map_nil, commaSeparated_singleton] at hdepth ⊢
        rw [scanItems, hitem depth _ (by omega) (.bracket rest)]
        simp only [skipBlanks_cons (show isBlank ']' = false by decide), List.reverse_cons]
      | cons next items =>
        rw [List.map_cons, List.map_cons, commaSeparated_cons, ← List.map_cons] at hdepth ⊢
        rw [List.length_append, List.length_cons] at hdepth
        rw [List.append_assoc, List.cons_append, scanItems, hitem depth _ (by omega) (.comma _)]
        simp only [skipBlanks_cons (show isBlank ',' = false by decide)]
        rw [ih (List.cons_ne_nil _ _) hitems _ (by omega), List.reverse_cons, List.append_assoc]
        rfl

theorem readBack_array {items : List Json} (hwritten : ∀ item ∈ items, Written item)
    (h : ∀ item ∈ items, ReadBack item) : ReadBack (array items) := by
  intro depth rest hdepth hrest
  rw [text_array] at hdepth ⊢
  cases depth with
  | zero => simp at hdepth
  | succ depth =>
    rw [List.cons_append, List.append_assoc, List.singleton_append, scanValue,
      skipBlanks_cons (show isBlank '[' = false by decide)]
    cases items with
    | nil => rfl
    | cons item items =>
      obtain ⟨c, cs, htext, hblank, hbracket⟩ := (hwritten item List.mem_cons_self).text_eq_cons
      obtain ⟨more, hmore⟩ := commaSeparated_eq_cons c cs (items.map text)
      rw [List.length_cons, List.length_append] at hdepth
      have hscan := scanItems_text (List.cons_ne_nil item items) h []
        (show 2 * _ < depth by omega) rest
      rw [List.map_cons, htext, hmore, List.cons_append] at hscan ⊢
      simp only [skipBlanks_cons hblank]
      split
      · next hclose => exact absurd (List.cons.inj hclose).1 hbracket
      · exact hscan

theorem scanKey_fieldText (key rest : List Char) :
    scanKey ('"' :: (Quoted.escape key ++ '"' :: ':' :: rest)) = some (Quoted.escape key, rest) := by
  simp only [scanKey, skipBlanks_cons (show isBlank '"' = false by decide), Quoted.scan_escape,
    skipBlanks_cons (show isBlank ':' = false by decide), Option.bind_eq_bind, Option.bind_some,
    Option.pure_def]

/-- As `scanItems_text`, with the key before each value. -/
theorem scanFields_text {fields : List (List Char × Json)} (hne : fields ≠ [])
    (hkeys : ∀ field ∈ fields, ∃ key, field.1 = Quoted.escape key)
    (h : ∀ field ∈ fields, ReadBack field.2) (before : List (List Char × Json)) {depth : Nat}
    (hdepth : 2 * (commaSeparated (fields.map fieldText)).length < depth) (rest : List Char) :
    scanFields depth before (commaSeparated (fields.map fieldText) ++ '}' :: rest) =
      some (object (before.reverse ++ fields), rest) := by
  induction fields generalizing before depth with
  | nil => exact absurd rfl hne
  | cons field fields ih =>
    obtain ⟨hfield, hfields⟩ := List.forall_mem_cons.1 h
    obtain ⟨⟨key, hkey⟩, hkeys⟩ := List.forall_mem_cons.1 hkeys
    have hlength : field.2.text.length < (fieldText field).length := by
      simp only [fieldText, List.length_cons, List.length_append]
      omega
    have hscan (more : List Char) : scanKey (fieldText field ++ more) =
        some (field.1, field.2.text ++ more) := by
      rw [fieldText, hkey, List.cons_append, List.append_assoc, List.cons_append, List.cons_append,
        scanKey_fieldText]
    cases depth with
    | zero => omega
    | succ depth =>
      cases fields with
      | nil =>
        rw [List.map_cons, List.map_nil, commaSeparated_singleton] at hdepth ⊢
        rw [scanFields, hscan]
        simp only [hfield depth _ (by omega) (.brace rest),
          skipBlanks_cons (show isBlank '}' = false by decide), List.reverse_cons]
      | cons next fields =>
        rw [List.map_cons, List.map_cons, commaSeparated_cons, ← List.map_cons] at hdepth ⊢
        rw [List.length_append, List.length_cons] at hdepth
        rw [List.append_assoc, List.cons_append, scanFields, hscan]
        simp only [hfield depth _ (by omega) (.comma _),
          skipBlanks_cons (show isBlank ',' = false by decide)]
        rw [ih (List.cons_ne_nil _ _) hkeys hfields _ (by omega), List.reverse_cons,
          List.append_assoc]
        rfl

theorem readBack_object {fields : List (List Char × Json)}
    (hkeys : ∀ field ∈ fields, ∃ key, field.1 = Quoted.escape key)
    (h : ∀ field ∈ fields, ReadBack field.2) : ReadBack (object fields) := by
  intro depth rest hdepth hrest
  rw [text_object] at hdepth ⊢
  cases depth with
  | zero => simp at hdepth
  | succ depth =>
    rw [List.cons_append, List.append_assoc, List.singleton_append, scanValue,
      skipBlanks_cons (show isBlank '{' = false by decide)]
    cases fields with
    | nil => rfl
    | cons field fields =>
      obtain ⟨more, hmore⟩ := commaSeparated_eq_cons '"' _ (fields.map fieldText)
      rw [List.length_cons, List.length_append] at hdepth
      have hscan := scanFields_text (List.cons_ne_nil field fields) hkeys h []
        (show 2 * _ < depth by omega) rest
      rw [List.map_cons, fieldText, hmore, List.cons_append] at hscan ⊢
      simp only [skipBlanks_cons (show isBlank '"' = false by decide)]
      exact hscan

/-- What is written is read back, whatever the depth that is left over. -/
theorem Written.readBack {value : Json} (h : Written value) : ReadBack value := by
  induction h with
  | null => exact readBack_null
  | bool value => exact readBack_bool value
  | int n => exact readBack_ofInt n
  | string inside => exact readBack_string inside
  | array h ih => exact readBack_array h ih
  | object hkeys h ih => exact readBack_object hkeys ih

theorem Written.read?_text {value : Json} (h : Written value) : read? value.text = some value := by
  have hscan := h.readBack (2 * value.text.length + 2) [] (by omega) .nil
  rw [List.append_nil] at hscan
  rw [read?, hscan]
  rfl

end WasmSnapshot.Json
