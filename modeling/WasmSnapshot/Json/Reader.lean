import WasmSnapshot.Json.Basic

/-! Reading JSON text. The grammar is strict: the blanks are space, tab, line feed and carriage
return, nothing but blanks may stand around the value, and nesting may be of any depth. -/

namespace WasmSnapshot.Json

/-- The characters that may stand between tokens. -/
def isBlank (c : Char) : Bool := c = ' ' || c = '\t' || c = '\n' || c = '\r'

/-- What follows the blanks at the front of a text. -/
def skipBlanks (text : List Char) : List Char := text.dropWhile isBlank

/-- A row of at least one digit, and what follows. -/
def scanDigits (text : List Char) : Option (List Char × List Char) :=
  let (digits, rest) := text.span Decimal.isDigit
  if digits = [] then none else some (digits, rest)

/-- The digits of a number before its point: a zero, or a row that begins with no zero. -/
def scanWhole : List Char → Option (List Char × List Char)
  | '0' :: rest => some (['0'], rest)
  | text => scanDigits text

/-- The point of a number and the digits after it, if there are any. -/
def scanFraction : List Char → Option (List Char × List Char)
  | '.' :: rest => do
    let (digits, rest) ← scanDigits rest
    pure ('.' :: digits, rest)
  | text => some ([], text)

/-- A sign, if there is one. -/
def scanSign : List Char → List Char × List Char
  | '+' :: rest => (['+'], rest)
  | '-' :: rest => (['-'], rest)
  | text => ([], text)

/-- The exponent of a number, if there is one. -/
def scanExponent : List Char → Option (List Char × List Char)
  | e :: rest =>
    if e = 'e' || e = 'E' then do
      let (sign, rest) := scanSign rest
      let (digits, rest) ← scanDigits rest
      pure (e :: (sign ++ digits), rest)
    else some ([], e :: rest)
  | [] => some ([], [])

/-- A number without sign. -/
def scanUnsigned (text : List Char) : Option (List Char × List Char) := do
  let (whole, rest) ← scanWhole text
  let (fraction, rest) ← scanFraction rest
  let (exponent, rest) ← scanExponent rest
  pure (whole ++ fraction ++ exponent, rest)

/-- A number. -/
def scanNumber : List Char → Option (List Char × List Char)
  | '-' :: text => do
    let (numeral, rest) ← scanUnsigned text
    pure ('-' :: numeral, rest)
  | text => scanUnsigned text

/-- A value that is neither list nor object, at the very front of the text. -/
def scanScalar : List Char → Option (Json × List Char)
  | 'n' :: 'u' :: 'l' :: 'l' :: rest => some (null, rest)
  | 't' :: 'r' :: 'u' :: 'e' :: rest => some (bool true, rest)
  | 'f' :: 'a' :: 'l' :: 's' :: 'e' :: rest => some (bool false, rest)
  | '"' :: text => do
    let (inside, rest) ← Quoted.scan text
    pure (string inside, rest)
  | text => do
    let (numeral, rest) ← scanNumber text
    pure (number numeral, rest)

/-- A key of an object with the colon after it. -/
def scanKey (text : List Char) : Option (List Char × List Char) :=
  match skipBlanks text with
  | '"' :: text => do
    let (key, rest) ← Quoted.scan text
    match skipBlanks rest with
    | ':' :: rest => pure (key, rest)
    | _ => none
  | _ => none

mutual

/-- A value, and what follows. Two steps of depth are enough for each character of the text. -/
def scanValue : Nat → List Char → Option (Json × List Char)
  | 0, _ => none
  | depth + 1, text =>
    match skipBlanks text with
    | '[' :: rest =>
      match skipBlanks rest with
      | ']' :: after => some (array [], after)
      | _ => scanItems depth [] rest
    | '{' :: rest =>
      match skipBlanks rest with
      | '}' :: after => some (object [], after)
      | _ => scanFields depth [] rest
    | scalar => scanScalar scalar

/-- The items of a list after those read so far, the last of which comes first. -/
def scanItems : Nat → List Json → List Char → Option (Json × List Char)
  | 0, _, _ => none
  | depth + 1, before, text =>
    match scanValue depth text with
    | none => none
    | some (item, rest) =>
      match skipBlanks rest with
      | ',' :: rest => scanItems depth (item :: before) rest
      | ']' :: rest => some (array (item :: before).reverse, rest)
      | _ => none

/-- The fields of an object after those read so far, the last of which comes first. -/
def scanFields : Nat → List (List Char × Json) → List Char → Option (Json × List Char)
  | 0, _, _ => none
  | depth + 1, before, text =>
    match scanKey text with
    | none => none
    | some (key, rest) =>
      match scanValue depth rest with
      | none => none
      | some (value, rest) =>
        match skipBlanks rest with
        | ',' :: rest => scanFields depth ((key, value) :: before) rest
        | '}' :: rest => some (object ((key, value) :: before).reverse, rest)
        | _ => none

end

/-- The value that a text is. -/
def read? (text : List Char) : Option Json := do
  let (value, rest) ← scanValue (2 * text.length + 2) text
  guard (skipBlanks rest = [])
  pure value

end WasmSnapshot.Json
