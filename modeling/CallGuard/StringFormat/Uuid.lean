import CallGuard.Number.Numeral

/-!
# Unique identifiers

Thirty-two hexadecimal digits of either case: on their own, or with hyphens in groups of 8, 4,
4, 4 and 12.  The hyphenated form may stand in braces or after `urn:uuid:` in any case.
-/

namespace CallGuard

def isHexDigit (c : Char) : Bool := (digitValue? 16 c).isSome

/-- Whether a text is so many hexadecimal digits. -/
def isHexRun (count : Nat) (text : List Char) : Bool :=
  text.length == count && text.all isHexDigit

/-- Whether a text is groups of hexadecimal digits of the given sizes with hyphens between. -/
def isHexGroups : List Nat → List Char → Bool
  | [], _ => false
  | [count], text => isHexRun count text
  | count :: counts, text =>
    isHexRun count (text.take count) &&
      match text.drop count with
      | '-' :: rest => isHexGroups counts rest
      | _ => false

/-- Whether a text is a hyphenated identifier. -/
def isHyphenatedUuid (text : List Char) : Bool := isHexGroups [8, 4, 4, 4, 12] text

/-- The prefix of the form as a resource name. -/
def uuidScheme : List Char := ['u', 'r', 'n', ':', 'u', 'u', 'i', 'd', ':']

/-- Whether a text is an identifier in one of the four forms. -/
def isUuid (text : List Char) : Bool :=
  isHexRun 32 text || isHyphenatedUuid text
    || (text.head? == some '\x7b' && text.getLast? == some '\x7d'
          && isHyphenatedUuid ((text.drop 1).dropLast))
    || ((text.take uuidScheme.length).map Char.toLower == uuidScheme
          && isHyphenatedUuid (text.drop uuidScheme.length))

end CallGuard
