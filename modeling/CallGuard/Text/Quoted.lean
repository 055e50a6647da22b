import CallGuard.Text.Invisible

/-!
# Quoted texts

Two ways to write a text between double quotes.  The readable one escapes whatever would not
show; the document one escapes only what a JSON string must.
-/

namespace CallGuard

/-- One character of a readable quoted text. -/
def readableEscape (c : Char) : List Char :=
  if c = '"' then ['\\', '"']
  else if c = '\\' then ['\\', '\\']
  else if c = '\n' then ['\\', 'n']
  else if c = '\r' then ['\\', 'r']
  else if c = '\t' then ['\\', 't']
  else if c.toNat = 0 then ['\\', '0']
  else if isInvisible c then '\\' :: 'u' :: '\x7b' :: Nat.toDigits 16 c.toNat ++ ['\x7d']
  else [c]

/-- A text between double quotes with everything that would not show escaped. -/
def quoteReadable (text : String) : String :=
  String.ofList ('"' :: text.toList.flatMap readableEscape ++ ['"'])

/-- One character of a document string: the short escapes, `\u00xx` for the other controls,
    and every other character as it is. -/
def documentEscape (c : Char) : List Char :=
  if c = '"' then ['\\', '"']
  else if c = '\\' then ['\\', '\\']
  else if c = '\n' then ['\\', 'n']
  else if c = '\r' then ['\\', 'r']
  else if c = '\t' then ['\\', 't']
  else if c.toNat = 0x8 then ['\\', 'b']
  else if c.toNat = 0xc then ['\\', 'f']
  else if c.toNat < 0x10 then '\\' :: 'u' :: '0' :: '0' :: '0' :: Nat.toDigits 16 c.toNat
  else if c.toNat < 0x20 then '\\' :: 'u' :: '0' :: '0' :: Nat.toDigits 16 c.toNat
  else [c]

/-- A text as a document string. -/
def quoteDocument (text : String) : String :=
  String.ofList ('"' :: text.toList.flatMap documentEscape ++ ['"'])

end CallGuard
