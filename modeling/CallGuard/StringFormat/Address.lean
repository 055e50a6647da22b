import CallGuard.Text.Blank

/-!
# Mail addresses and web addresses

Two recognisers over the characters of a text.  A mail address is a local part, an at sign, a
domain, a dot and a top-level domain of letters; since that last part holds no dot, it starts
after the last dot.  A web address is a scheme, one character that starts a host, one
character of any kind but a line feed, and no blank from there on.
-/

namespace CallGuard

/-- A character of the local part of a mail address. -/
def isLocalChar (c : Char) : Bool :=
  c.isAlphanum || c = '.' || c = '_' || c = '%' || c = '+' || c = '-'

/-- A character of a mail domain. -/
def isDomainChar (c : Char) : Bool := c.isAlphanum || c = '.' || c = '-'

/-- The letters after the last dot and what stands before that dot, both backwards: at least
    two letters, and at least one character before. -/
def endsInTopLevelDomain (backwards : List Char) : Bool :=
  2 ≤ (backwards.takeWhile Char.isAlpha).length &&
    match backwards.dropWhile Char.isAlpha with
    | '.' :: domain => !domain.isEmpty && domain.all isDomainChar
    | _ => false

/-- Whether a text is a mail address. -/
def isEmail (text : List Char) : Bool :=
  !(text.takeWhile isLocalChar).isEmpty &&
    match text.dropWhile isLocalChar with
    | '@' :: domain => endsInTopLevelDomain domain.reverse
    | _ => false

/-- A character that may start the host of a web address. -/
def isHostStart (c : Char) : Bool :=
  !(isBlank c || c = '/' || c = '$' || c = '.' || c = '?' || c = '#')

/-- What follows the scheme of a web address. -/
def isUrlRest : List Char → Bool
  | first :: second :: rest => isHostStart first && second != '\n' && rest.all fun c => !isBlank c
  | _ => false

/-- Whether a text is a web address with one of the schemes `http` and `https`. -/
def isUrl : List Char → Bool
  | 'h' :: 't' :: 't' :: 'p' :: 's' :: ':' :: '/' :: '/' :: rest => isUrlRest rest
  | 'h' :: 't' :: 't' :: 'p' :: ':' :: '/' :: '/' :: rest => isUrlRest rest
  | _ => false

end CallGuard
