import CallGuard.Json.Numeral

/-!
# The grammar of JSON texts

A text is first read as a tree of what is written: numerals as digits, strings with their
escapes, members with repetitions.  What the parts mean is decided afterwards, so a part
that nobody asks for may hold a number out of range or half of a surrogate pair.
-/

namespace CallGuard

/-- A unit of a written string: a character, or the code of a `\u` escape. -/
inductive StringUnit where
  | char (c : Char)
  | code (unit : Nat)
  deriving DecidableEq

/-- A JSON text as written. -/
inductive JsonSyntax where
  | null
  | bool (b : Bool)
  | number (numeral : Numeral)
  | string (units : List StringUnit)
  | array (items : List JsonSyntax)
  | object (members : List (List StringUnit × JsonSyntax))
  deriving Inhabited

namespace StringUnit

/-- The character of a surrogate pair. -/
def joinSurrogates (high low : Nat) : Char :=
  Char.ofNat (0x10000 + (high - 0xd800) * 0x400 + (low - 0xdc00))

/-- The text of written units; half of a surrogate pair is refused. -/
def text? : List StringUnit → Option (List Char)
  | [] => some []
  | char c :: rest => (text? rest).map (c :: ·)
  | [code unit] => if 0xd800 ≤ unit && unit ≤ 0xdfff then none else some [Char.ofNat unit]
  | code unit :: char c :: rest =>
    if 0xd800 ≤ unit && unit ≤ 0xdfff then none
    else (text? rest).map fun tail => Char.ofNat unit :: c :: tail
  | code unit :: code next :: rest =>
    if 0xd800 ≤ unit && unit ≤ 0xdbff then
      if 0xdc00 ≤ next && next ≤ 0xdfff then (text? rest).map (joinSurrogates unit next :: ·)
      else none
    else if 0xdc00 ≤ unit && unit ≤ 0xdfff then none
    else (text? (code next :: rest)).map (Char.ofNat unit :: ·)

/-- The text of written units as a string. -/
def string? (units : List StringUnit) : Option String := (text? units).map String.ofList

end StringUnit

namespace JsonSyntax

/-- The blanks between tokens. -/
def isSpace (c : Char) : Bool := c = ' ' || c = '\n' || c = '\t' || c = '\r'

/-- The text after the blanks in front. -/
def skipSpace (text : List Char) : List Char := text.dropWhile isSpace

/-- The text after a word in front. -/
def afterWord? : List Char → List Char → Option (List Char)
  | [], text => some text
  | c :: word, d :: text => if c = d then afterWord? word text else none
  | _ :: _, [] => none

/-- The rest of a string after its opening quote. -/
def readString? : List Char → Option (List StringUnit × List Char)
  | [] => none
  | '"' :: rest => some ([], rest)
  | '\\' :: 'u' :: a :: b :: c :: d :: rest =>
    match readNat? 16 [a, b, c, d], readString? rest with
    | some unit, some (units, after) => some (.code unit :: units, after)
    | _, _ => none
  | '\\' :: c :: rest =>
    let escaped : Option Char := match c with
      | '"' => some '"'
      | '\\' => some '\\'
      | '/' => some '/'
      | 'b' => some '\x08'
      | 'f' => some '\x0c'
      | 'n' => some '\n'
      | 'r' => some '\r'
      | 't' => some '\t'
      | _ => none
    match escaped, readString? rest with
    | some e, some (units, after) => some (.char e :: units, after)
    | _, _ => none
  | c :: rest =>
    if c.toNat < 0x20 || c = '\\' then none
    else (readString? rest).map fun (units, after) => (.char c :: units, after)

/-- An exponent in front: none, or `e` in either case, at most one sign and digits. -/
def readExponent? : List Char → Option (Option Int × List Char)
  | [] => some (none, [])
  | c :: rest =>
    if c = 'e' || c = 'E' then
      let sign := rest.takeWhile fun c => c = '+' || c = '-'
      let digits := (rest.drop sign.length).takeWhile Char.isDigit
      (readInt? 10 (sign ++ digits)).map fun exponent =>
        (some exponent, rest.drop (sign.length + digits.length))
    else some (none, c :: rest)

/-- A number in front: no leading zeros, digits on both sides of a point. -/
def readNumber? (text : List Char) : Option (Numeral × List Char) :=
  let (negative, body) := match text with
    | '-' :: rest => (true, rest)
    | _ => (false, text)
  let whole := body.takeWhile Char.isDigit
  let afterWhole := body.drop whole.length
  let (point, fraction, afterFraction) := match afterWhole with
    | '.' :: rest => (true, rest.takeWhile Char.isDigit, rest.dropWhile Char.isDigit)
    | _ => (false, [], afterWhole)
  if whole.isEmpty || (whole.head? == some '0' && 1 < whole.length) || (point && fraction.isEmpty)
  then none
  else (readExponent? afterFraction).map fun (exponent, rest) =>
    (⟨negative, whole, fraction, exponent.getD 0, !point && exponent.isNone⟩, rest)

mutual

/-- A value in front of a text; every call spends one unit of fuel. -/
def readValue? : Nat → List Char → Option (JsonSyntax × List Char)
  | 0, _ => none
  | fuel + 1, text =>
    match skipSpace text with
    | 'n' :: rest => (afterWord? ['u', 'l', 'l'] rest).map (null, ·)
    | 't' :: rest => (afterWord? ['r', 'u', 'e'] rest).map (bool true, ·)
    | 'f' :: rest => (afterWord? ['a', 'l', 's', 'e'] rest).map (bool false, ·)
    | '"' :: rest => (readString? rest).map fun (units, after) => (string units, after)
    | '[' :: rest =>
      match skipSpace rest with
      | ']' :: after => some (array [], after)
      | body => (readItems? fuel body).map fun (items, after) => (array items, after)
    | '\x7b' :: rest =>
      match skipSpace rest with
      | '\x7d' :: after => some (object [], after)
      | body => (readMembers? fuel body).map fun (members, after) => (object members, after)
    | body => (readNumber? body).map fun (numeral, after) => (number numeral, after)

/-- One or more items up to the closing bracket. -/
def readItems? : Nat → List Char → Option (List JsonSyntax × List Char)
  | 0, _ => none
  | fuel + 1, text => do
    let (item, after) ← readValue? fuel text
    match skipSpace after with
    | ',' :: rest => do
      let (items, after) ← readItems? fuel rest
      return (item :: items, after)
    | ']' :: rest => return ([item], rest)
    | _ => none

/-- One or more members up to the closing brace. -/
def readMembers? : Nat → List Char → Option (List (List StringUnit × JsonSyntax) × List Char)
  | 0, _ => none
  | fuel + 1, text => do
    match skipSpace text with
    | '"' :: rest => do
      let (name, after) ← readString? rest
      match skipSpace after with
      | ':' :: rest => do
        let (value, after) ← readValue? fuel rest
        match skipSpace after with
        | ',' :: rest => do
          let (members, after) ← readMembers? fuel rest
          return ((name, value) :: members, after)
        | '\x7d' :: rest => return ([(name, value)], rest)
        | _ => none
      | _ => none
    | _ => none

end

/-- A whole text as one value, with blanks around it.  A pair of brackets takes two calls
    and a comma one, so the length of the text is fuel enough. -/
def ofText? (text : String) : Option JsonSyntax :=
  let chars := text.toList
  match readValue? (chars.length + 1) chars with
  | some (value, rest) => if (skipSpace rest).isEmpty then some value else none
  | none => none

end JsonSyntax

end CallGuard
