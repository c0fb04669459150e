import WasmSnapshot.Text.Decimal
import WasmSnapshot.Text.Quoted

/-! JSON values and their written form.

Numbers and strings are kept as they are written. What they mean is asked where it is needed, so a
value that nobody asks for may hold a number out of all range or half of a surrogate pair. -/

namespace WasmSnapshot

/-- A JSON value. -/
inductive Json where
  | null
  | bool (value : Bool)
  /-- A number, by its numeral. -/
  | number (numeral : List Char)
  /-- A string, by what stands between its quotes. -/
  | string (inside : List Char)
  | array (items : List Json)
  /-- An object, by what stands between the quotes of its keys, and its values. -/
  | object (fields : List (List Char × Json))
  deriving Repr

namespace Json

instance : Inhabited Json := ⟨null⟩

/-- An integer. -/
def ofInt (n : Int) : Json := number (Decimal.ofInt n)

/-- A natural number. -/
def ofNat (n : Nat) : Json := number (Decimal.digits n)

/-- A string. -/
def ofString (s : String) : Json := string (Quoted.escape s.toList)

/-- An object with the given keys. -/
def ofFields (fields : List (String × Json)) : Json :=
  object (fields.map fun (key, value) => (Quoted.escape key.toList, value))

/-- Texts with commas between them. -/
def commaSeparated (texts : List (List Char)) : List Char :=
  (texts.intersperse [',']).flatten

/-- The written form of a value, without blanks. -/
def text : Json → List Char
  | null => ['n', 'u', 'l', 'l']
  | bool true => ['t', 'r', 'u', 'e']
  | bool false => ['f', 'a', 'l', 's', 'e']
  | number numeral => numeral
  | string inside => '"' :: (inside ++ ['"'])
  | array items => '[' :: (commaSeparated (items.map text) ++ [']'])
  | object fields =>
    '{' :: (commaSeparated (fields.map fun field =>
      '"' :: (field.1 ++ '"' :: ':' :: text field.2)) ++ ['}'])
decreasing_by
  · simp_wf
    have := List.sizeOf_lt_of_mem ‹_ ∈ items›
    omega
  · simp_wf
    have := List.sizeOf_lt_of_mem ‹_ ∈ fields›
    have : sizeOf field.2 < sizeOf field := by
      rcases field with ⟨key, value⟩
      simp only [Prod.mk.sizeOf_spec]
      omega
    omega

/-- The truth value that a value is. -/
def bool? : Json → Option Bool
  | bool value => some value
  | _ => none

/-- The integer that a numeral stands for. A fraction, an exponent or a zero with a sign makes it
no integer, whatever its value. -/
def integer? : List Char → Option Int
  | '-' :: digits => do
    let n ← Decimal.read? digits
    guard (n ≠ 0)
    pure (-n)
  | digits => Int.ofNat <$> Decimal.read? digits

/-- The integer that a value is. -/
def int? : Json → Option Int
  | number numeral => integer? numeral
  | _ => none

/-- The integer of 32 bits without sign that a value is. -/
def uint32? (value : Json) : Option UInt32 := do
  let n ← value.int?
  guard (0 ≤ n ∧ n < UInt32.size)
  pure (UInt32.ofNat n.toNat)

/-- The integer of 32 bits with sign that a value is. -/
def int32? (value : Json) : Option Int32 := do
  let n ← value.int?
  guard (Int32.minValue.toInt ≤ n ∧ n ≤ Int32.maxValue.toInt)
  pure (Int32.ofInt n)

/-- The text that a value is. -/
def string? : Json → Option String
  | string inside => String.ofList <$> Quoted.unescape? inside
  | _ => none

/-- The values of a list, each taken for what `item` says. -/
def array? {α : Type} (item : Json → Option α) : Json → Option (List α)
  | array items => items.mapM item
  | _ => none

/-- A value that may be `null`. -/
def nullable? {α : Type} (value : Json → Option α) : Json → Option (Option α)
  | null => some none
  | other => some <$> value other

/-- The fields of a record whose names are `known`: an object, in which none of them occurs twice
and other keys may stand, or a list of values in the order of the names. -/
def record? (known : List String) : Json → Option (List (String × Json))
  | object fields => do
    let named ← fields.mapM fun (key, value) => do
      let name ← Quoted.unescape? key
      pure (String.ofList name, value)
    guard (known.all fun name => (named.countP (·.1 = name)) ≤ 1)
    pure named
  | array items => do
    guard (items.length ≤ known.length)
    pure (known.zip items)
  | _ => none

/-- The field of a record, or `default` if it is absent. -/
def field? {α : Type} (record : List (String × Json)) (name : String) (value : Json → Option α)
    (default : Option α) : Option α :=
  match record.lookup name with
  | some found => value found
  | none => default

end Json

end WasmSnapshot
