import CallGuard.Yaml.Scalar

/-!
# YAML tokens

A text as scalars, brackets and the marks that indentation stands for.  A scalar or bracket
that turns out to be a key gets its mark in front when the colon behind it is met, which must
be on the same line.
-/

namespace CallGuard.Yaml

/-- A token of a YAML text. -/
inductive Token where
  | documentStart
  | documentEnd
  | streamEnd
  | blockSequenceStart
  | blockMappingStart
  | blockEnd
  | flowSequenceStart
  | flowSequenceEnd
  | flowMappingStart
  | flowMappingEnd
  | blockEntry
  | flowEntry
  | key
  | value
  /-- A scalar, and whether it is plain. -/
  | scalar (text : String) (plain : Bool)
  deriving DecidableEq

/-- A place where a key may have started. -/
structure PossibleKey where
  /-- Whether only a key can stand there. -/
  required : Bool
  /-- The number of tokens before it. -/
  position : Nat
  line : Nat
  column : Nat
  index : Nat

/-- The state of reading tokens: the cursor, what was read, and what may still become a key. -/
structure Reader where
  cursor : Cursor
  tokens : List Token
  /-- The column of the innermost block, or `-1` outside all blocks, and those around it. -/
  indent : Int
  outer : List Int
  /-- The possible key of the block level, then of each level of brackets, innermost first. -/
  keys : List (Option PossibleKey)
  /-- Whether a key may start at the cursor. -/
  keyAllowed : Bool

namespace Reader

/-- The start of a text. -/
def start (text : List Char) : Reader := ⟨.start text, [], -1, [], [none], true⟩

/-- Whether the cursor is within brackets. -/
def inFlow (s : Reader) : Bool := 1 < s.keys.length

/-- The state with one more token. -/
def emit (s : Reader) (token : Token) : Reader := { s with tokens := s.tokens ++ [token] }

/-- Gives up the innermost possible key; fails if it was required. -/
def dropKey? (s : Reader) : Option Reader :=
  match s.keys with
  | some k :: keys => if k.required then none else some { s with keys := none :: keys }
  | _ => some s

/-- Notes that a key may start at the cursor. -/
def noteKey? (s : Reader) : Option Reader :=
  if s.keyAllowed then do
    let s ← s.dropKey?
    let c := s.cursor
    let required := !s.inFlow && s.indent == c.column
    return { s with
      keys := some ⟨required, s.tokens.length, c.line, c.column, c.index⟩ :: s.keys.drop 1 }
  else some s

/-- Gives up the possible keys on earlier lines, and those too long ago. -/
def dropStaleKeys? (s : Reader) : Option Reader := do
  let keys ← s.keys.mapM fun key? =>
    match key? with
    | some k =>
      if k.line < s.cursor.line || k.index + 1024 < s.cursor.index then
        if k.required then none else some none
      else some (some k)
    | none => some none
  return { s with keys }

/-- Closes the blocks that are indented further than a column. -/
def closeTo (s : Reader) (column : Int) : List Int → Reader
  | [] => s
  | outer :: rest =>
    if !s.inFlow && column < s.indent then
      closeTo { s.emit .blockEnd with indent := outer, outer := rest } column rest
    else s

/-- Closes the blocks that are indented further than a column. -/
def unindent (s : Reader) (column : Int) : Reader := s.closeTo column s.outer

/-- Opens a block at a column if it is indented further than the one around it; its token
    goes to a position among the tokens. -/
def indentTo (s : Reader) (column position : Nat) (token : Token) : Reader :=
  if !s.inFlow && s.indent < column then
    { s with
      tokens := s.tokens.insertIdx position token
      indent := column
      outer := s.indent :: s.outer }
  else s

/-- Passes blanks, comments and line breaks.  A tab may not stand where a key can. -/
def skipToToken (s : Reader) : Nat → Reader
  | 0 => s
  | fuel + 1 =>
    match s.cursor.rest with
    | [] => s
    | d :: _ =>
      if d = ' ' || (d = '\t' && (s.inFlow || !s.keyAllowed)) then
        skipToToken { s with cursor := s.cursor.skip 1 } fuel
      else if d = '#' then skipToToken { s with cursor := s.cursor.skipLine } fuel
      else if isBreak d then
        skipToToken { s with cursor := s.cursor.next, keyAllowed := s.keyAllowed || !s.inFlow } fuel
      else s

/-- A token of so many characters, after which a key may start or not. -/
def take (s : Reader) (width : Nat) (token : Token) (keyAllowed : Bool) : Reader :=
  { s.emit token with cursor := s.cursor.skip width, keyAllowed }

/-- An opening bracket, which may start a key itself. -/
def openFlow? (s : Reader) (token : Token) : Option Reader := do
  let s ← s.noteKey?
  return { s with keys := none :: s.keys }.take 1 token true

/-- A closing bracket. -/
def closeFlow? (s : Reader) (token : Token) : Option Reader := do
  let s ← s.dropKey?
  let keys := if s.inFlow then s.keys.drop 1 else s.keys
  return { s with keys }.take 1 token false

/-- A dash that starts an entry of a block sequence. -/
def blockEntry? (s : Reader) : Option Reader := do
  if !s.inFlow && !s.keyAllowed then none
  else
    let s := s.indentTo s.cursor.column s.tokens.length .blockSequenceStart
    return (← s.dropKey?).take 1 .blockEntry true

/-- A question mark that announces a key. -/
def explicitKey? (s : Reader) : Option Reader := do
  if !s.inFlow && !s.keyAllowed then none
  else
    let s := s.indentTo s.cursor.column s.tokens.length .blockMappingStart
    return (← s.dropKey?).take 1 .key !s.inFlow

/-- A colon: behind a possible key it marks that key, otherwise it stands for a value whose
    key was announced or is empty. -/
def value? (s : Reader) : Option Reader :=
  match s.keys with
  | some k :: keys =>
    let marked := { s with tokens := s.tokens.insertIdx k.position .key, keys := none :: keys }
    some ((marked.indentTo k.column k.position .blockMappingStart).take 1 .value false)
  | _ =>
    if s.inFlow then some (s.take 1 .value false)
    else if !s.keyAllowed then none
    else some ((s.indentTo s.cursor.column s.tokens.length .blockMappingStart).take 1 .value true)

/-- A scalar in quotes. -/
def quoted? (s : Reader) (read : Nat → List Char → Cursor → Option (List Char × Cursor)) :
    Option Reader := do
  let s ← s.noteKey?
  let (text, cursor) ← read (s.cursor.rest.length + 1) [] (s.cursor.skip 1)
  return { s.emit (.scalar (String.ofList text) false) with cursor, keyAllowed := false }

/-- A block scalar. -/
def block? (s : Reader) (literal : Bool) : Option Reader := do
  let s ← s.dropKey?
  let (text, cursor) ← readBlock? literal s.indent (s.cursor.skip 1)
  return { s.emit (.scalar (String.ofList text) false) with cursor, keyAllowed := true }

/-- A plain scalar. -/
def plain? (s : Reader) : Option Reader := do
  let s ← s.noteKey?
  let (text, endsLine, cursor) ←
    readPlain? s.inFlow (s.indent + 1).toNat (s.cursor.rest.length + 1) [] .empty s.cursor
  return { s.emit (.scalar (String.ofList text) true) with cursor, keyAllowed := endsLine }

/-- A document marker. -/
def marker? (s : Reader) (token : Token) : Option Reader := do
  return (← (s.unindent (-1)).dropKey?).take 3 token false

/-- The end of the text. -/
def finish? (s : Reader) : Option Reader := do
  return (← (s.unindent (-1)).dropKey?).emit .streamEnd

/-- The characters besides brackets, commas and blanks that start no plain scalar. -/
def reserved : List Char := ['#', '&', '*', '!', '|', '>', '\'', '"', '%', '@', '\x60']

/-- Whether a character starts a plain scalar where a text follows. -/
def startsPlain (inFlow : Bool) (c : Char) (rest : List Char) : Bool :=
  if c = '-' then !atWordEnd rest
  else if c = '?' || c = ':' then !inFlow && !atWordEnd rest
  else !(isFlowIndicator c || isGap c || reserved.contains c)

/-- The next token that is not the end. -/
def next? (s : Reader) (c : Char) (rest : List Char) : Option Reader :=
  if s.cursor.column == 0 && c = '%' then none
  else if s.cursor.atMarker '-' then s.marker? .documentStart
  else if s.cursor.atMarker '.' then s.marker? .documentEnd
  else if c = '[' then s.openFlow? .flowSequenceStart
  else if c = '\x7b' then s.openFlow? .flowMappingStart
  else if c = ']' then s.closeFlow? .flowSequenceEnd
  else if c = '\x7d' then s.closeFlow? .flowMappingEnd
  else if c = ',' then do return (← s.dropKey?).take 1 .flowEntry true
  else if c = '-' && atWordEnd rest then s.blockEntry?
  else if c = '?' && (s.inFlow || atWordEnd rest) then s.explicitKey?
  else if c = ':' && (s.inFlow || atWordEnd rest) then s.value?
  else if c = '|' && !s.inFlow then s.block? true
  else if c = '>' && !s.inFlow then s.block? false
  else if c = '\'' then s.quoted? readSingle?
  else if c = '"' then s.quoted? readDouble?
  else if startsPlain s.inFlow c rest then s.plain?
  else none

/-- Reads tokens up to the end. -/
def run? (s : Reader) : Nat → Option (List Token)
  | 0 => none
  | fuel + 1 => do
    let s ← (s.skipToToken (s.cursor.rest.length + 1)).dropStaleKeys?
    let s := s.unindent s.cursor.column
    match s.cursor.rest with
    | [] => return (← s.finish?).tokens
    | c :: rest => run? (← s.next? c rest) fuel

end Reader

/-- The tokens of a text.  Every token takes at least one character. -/
def Token.ofText? (text : String) : Option (List Token) :=
  let chars := if text.toList.head? == some '\ufeff' then text.toList.drop 1 else text.toList
  if chars.all isPrintable then (Reader.start chars).run? (chars.length + 1) else none

end CallGuard.Yaml
