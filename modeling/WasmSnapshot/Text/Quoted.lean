/-! The inside of a quoted string: characters, and escapes that begin with a backslash.

Writing escapes quotes, backslashes and control characters. Reading also knows the escapes that
writing does not use, in particular characters above `U+FFFF` as two escapes, one for each half of a
surrogate pair. A half that stands alone means no character. -/

namespace WasmSnapshot.Quoted

/-- The hexadecimal digit of a number below 16. -/
def hexDigit (n : Nat) : Char := if n < 10 then Char.ofNat (n + 48) else Char.ofNat (n + 87)

/-- The value of a hexadecimal digit, in either case. -/
def hexValue? (c : Char) : Option Nat :=
  if '0' ≤ c ∧ c ≤ '9' then some (c.toNat - 48)
  else if 'a' ≤ c ∧ c ≤ 'f' then some (c.toNat - 87)
  else if 'A' ≤ c ∧ c ≤ 'F' then some (c.toNat - 55)
  else none

/-- The number that four hexadecimal digits stand for. -/
def hex4? (a b c d : Char) : Option Nat := do
  let a ← hexValue? a
  let b ← hexValue? b
  let c ← hexValue? c
  let d ← hexValue? d
  pure (((a * 16 + b) * 16 + c) * 16 + d)

/-- The character after the backslash in a short escape. -/
def shortEscape? (c : Char) : Option Char :=
  if c = '"' then some '"'
  else if c = '\\' then some '\\'
  else if c = '\x08' then some 'b'
  else if c = '\t' then some 't'
  else if c = '\n' then some 'n'
  else if c = '\x0c' then some 'f'
  else if c = '\r' then some 'r'
  else none

/-- The character that a short escape stands for, going by the character after the backslash. -/
def shortMeaning? (c : Char) : Option Char :=
  if c = '"' then some '"'
  else if c = '\\' then some '\\'
  else if c = '/' then some '/'
  else if c = 'b' then some '\x08'
  else if c = 't' then some '\t'
  else if c = 'n' then some '\n'
  else if c = 'f' then some '\x0c'
  else if c = 'r' then some '\r'
  else none

/-- Characters below this one do not stand in a string as they are. -/
def isControl (c : Char) : Bool := c.toNat < 32

/-- A character as it stands in a string. -/
def escapeChar (c : Char) : List Char :=
  match shortEscape? c with
  | some e => ['\\', e]
  | none =>
    if isControl c then
      ['\\', 'u', '0', '0', hexDigit (c.toNat / 16), hexDigit (c.toNat % 16)]
    else [c]

/-- A text as it stands between quotes. -/
def escape (text : List Char) : List Char := text.flatMap escapeChar

/-- The inside of a string, which ends at the first quote that is not escaped, and what follows.
Escapes are checked for their form alone. -/
def scan : List Char → Option (List Char × List Char)
  | [] => none
  | '"' :: rest => some ([], rest)
  | '\\' :: 'u' :: a :: b :: c :: d :: rest => do
    let _code ← hex4? a b c d
    let (inside, after) ← scan rest
    pure ('\\' :: 'u' :: a :: b :: c :: d :: inside, after)
  | '\\' :: c :: rest => do
    let _meaning ← shortMeaning? c
    let (inside, after) ← scan rest
    pure ('\\' :: c :: inside, after)
  | c :: rest => do
    guard (!isControl c && c != '\\')
    let (inside, after) ← scan rest
    pure (c :: inside, after)

/-- The code numbers that a string stands for, halves of surrogate pairs one by one. -/
def codes : List Char → Option (List Nat)
  | [] => some []
  | '\\' :: 'u' :: a :: b :: c :: d :: rest => do
    let code ← hex4? a b c d
    let codes ← codes rest
    pure (code :: codes)
  | '\\' :: c :: rest => do
    let meaning ← shortMeaning? c
    let codes ← codes rest
    pure (meaning.toNat :: codes)
  | c :: rest => do
    guard (!isControl c && c != '\\' && c != '"')
    let codes ← codes rest
    pure (c.toNat :: codes)

/-- Whether a code number is the first half of a surrogate pair. -/
def isHigh (code : Nat) : Bool := 0xd800 ≤ code && code < 0xdc00

/-- Whether a code number is the second half of a surrogate pair. -/
def isLow (code : Nat) : Bool := 0xdc00 ≤ code && code < 0xe000

/-- The characters that code numbers stand for, if every half of a pair has its other half. -/
def characters : List Nat → Option (List Char)
  | [] => some []
  | [code] => if isHigh code || isLow code then none else some [Char.ofNat code]
  | code :: next :: rest =>
    if isHigh code then
      if isLow next then
        (characters rest).map
          (Char.ofNat (0x10000 + (code - 0xd800) * 0x400 + (next - 0xdc00)) :: ·)
      else none
    else if isLow code then none
    else (characters (next :: rest)).map (Char.ofNat code :: ·)

/-- The text that stands between quotes in the given form. -/
def unescape? (inside : List Char) : Option (List Char) := do
  characters (← codes inside)

end WasmSnapshot.Quoted
