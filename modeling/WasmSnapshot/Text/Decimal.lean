/-! Decimal numerals of natural numbers, over lists of characters. -/

namespace WasmSnapshot.Decimal

/-- The numeral of a digit below ten. -/
def digitChar (d : Nat) : Char := Char.ofNat (d + 48)

/-- The numeral of `n`, without leading zeros. -/
def digits (n : Nat) : List Char :=
  if n < 10 then [digitChar n] else digits (n / 10) ++ [digitChar (n % 10)]

/-- The characters `0` to `9` and no others. -/
def isDigit (c : Char) : Bool := '0' ≤ c && c ≤ '9'

/-- The digit that a character of a numeral stands for. -/
def digitValue (c : Char) : Nat := c.toNat - 48

/-- The number that a row of digits stands for, leading zeros or not. -/
def value (cs : List Char) : Nat := cs.foldl (fun n c => 10 * n + digitValue c) 0

/-- The number that a text stands for, if it is a row of at least one digit. -/
def read? (cs : List Char) : Option Nat :=
  if cs ≠ [] ∧ cs.all isDigit then some (value cs) else none

/-- The numeral of an integer, with a sign if it is negative. -/
def ofInt : Int → List Char
  | .ofNat n => digits n
  | .negSucc n => '-' :: digits (n + 1)

end WasmSnapshot.Decimal
