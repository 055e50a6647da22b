import CallGuard.Number.Numeral
import CallGuard.Yaml.Cursor

/-!
# YAML scalars

Reading of plain scalars, scalars in single or double quotes, and block scalars.  Each reader
starts behind what announces the scalar and gives its text and the place after it.
-/

namespace CallGuard.Yaml

/-- A character that ends a plain scalar within brackets. -/
def isFlowIndicator (c : Char) : Bool :=
  c = ',' || c = '[' || c = ']' || c = '\x7b' || c = '\x7d'

/-- The word of a plain scalar in front.  Within brackets a colon may not be followed by an
    indicator. -/
def plainWord? (flow : Bool) : List Char → Option (List Char)
  | [] => some []
  | c :: rest =>
    if isGap c || isBreak c then some []
    else if flow && c = ':' && (rest.take 1).any fun d => d = '?' || isFlowIndicator d then none
    else if (c = ':' && atWordEnd rest) || (flow && isFlowIndicator c) then some []
    else (plainWord? flow rest).map (c :: ·)

/-- The text of a plain scalar, whether a line ended after it, and the place after it.  The
    scalar goes on over lines that are indented by `indent`, up to a comment, a document
    marker or what ends a word. -/
def readPlain? (flow : Bool) (indent : Nat) :
    Nat → List Char → Gap → Cursor → Option (List Char × Bool × Cursor)
  | 0, _, _, _ => none
  | fuel + 1, text, gap, c =>
    if c.atAnyMarker || c.rest.head? == some '#' then some (text, gap.breaks, c)
    else do
      let word ← plainWord? flow c.rest
      let after := c.skip word.length
      let text := if word.isEmpty then text else text ++ gap.folded ++ word
      let gap := if word.isEmpty then gap else .empty
      if after.rest.isEmpty || !atWordEnd after.rest then some (text, gap.breaks, after)
      else do
        let (gap, next) ← after.readGap? indent .empty
        if !flow && next.column < indent then some (text, gap.breaks, next)
        else readPlain? flow indent fuel text gap next

/-- The text of a scalar in single quotes up to its closing quote: words with doubled quotes,
    and gaps folded. -/
def readSingle? : Nat → List Char → Cursor → Option (List Char × Cursor)
  | 0, _, _ => none
  | fuel + 1, text, c =>
    if c.atAnyMarker then none
    else
      match c.rest with
      | [] => none
      | '\'' :: '\'' :: _ => readSingle? fuel (text ++ ['\'']) (c.skip 2)
      | '\'' :: _ => some (text, c.skip 1)
      | d :: _ =>
        if isGap d || isBreak d then
          (c.readGap? 0 .empty).bind fun (gap, next) => readSingle? fuel (text ++ gap.folded) next
        else readSingle? fuel (text ++ [d]) (c.skip 1)

/-- The character of an escape by one letter. -/
def escapedChar? (c : Char) : Option Char :=
  match c with
  | '0' => some '\x00'
  | 'a' => some '\x07'
  | 'b' => some '\x08'
  | 't' => some '\t'
  | '\t' => some '\t'
  | 'n' => some '\n'
  | 'v' => some '\x0b'
  | 'f' => some '\x0c'
  | 'r' => some '\r'
  | 'e' => some '\x1b'
  | ' ' => some ' '
  | '"' => some '"'
  | '/' => some '/'
  | '\\' => some '\\'
  | 'N' => some '\u0085'
  | '_' => some '\u00a0'
  | 'L' => some '\u2028'
  | 'P' => some '\u2029'
  | _ => none

/-- The number of hexadecimal digits after an escape by code. -/
def escapeWidth? (c : Char) : Option Nat :=
  match c with
  | 'x' => some 2
  | 'u' => some 4
  | 'U' => some 8
  | _ => none

/-- The character of a code written in hexadecimal digits; surrogates have none. -/
def charOfCode? (digits : List Char) : Option Char := do
  let code ← readNat? 16 digits
  if code < 0xd800 || (0xdfff < code && code ≤ 0x10ffff) then some (Char.ofNat code) else none

/-- The text of a scalar in double quotes up to its closing quote: words with escapes, and
    gaps folded. -/
def readDouble? : Nat → List Char → Cursor → Option (List Char × Cursor)
  | 0, _, _ => none
  | fuel + 1, text, c =>
    if c.atAnyMarker then none
    else
      match c.rest with
      | [] => none
      | '"' :: _ => some (text, c.skip 1)
      | '\\' :: [] => none
      | '\\' :: d :: rest =>
        if isBreak d then
          ((c.skip 1).next.readGap? 0 { Gap.empty with first := .escaped }).bind
            fun (gap, next) => readDouble? fuel (text ++ gap.folded) next
        else
          match escapeWidth? d with
          | some width => do
            let digits := rest.take width
            if digits.length < width then none
            else readDouble? fuel (text ++ [← charOfCode? digits]) (c.skip (2 + width))
          | none => do readDouble? fuel (text ++ [← escapedChar? d]) (c.skip 2)
      | d :: _ =>
        if isGap d || isBreak d then
          (c.readGap? 0 .empty).bind fun (gap, next) => readDouble? fuel (text ++ gap.folded) next
        else readDouble? fuel (text ++ [d]) (c.skip 1)

/-- What happens to the line breaks at the end of a block scalar. -/
inductive Chomping where
  | clip
  | strip
  | keep
  deriving DecidableEq

/-- The signs after the indicator of a block scalar: chomping and an indentation of one to
    nine, in either order. -/
def readBlockHeader? (c : Cursor) : Option (Chomping × Nat × Cursor) :=
  let chomping? (d : Char) : Option Chomping :=
    if d = '-' then some .strip else if d = '+' then some .keep else none
  let width? (d : Char) : Option Nat := if d.isDigit then some (d.toNat - '0'.toNat) else none
  let first := c.rest.head?
  let second := (c.rest.drop 1).head?
  match first.bind chomping?, first.bind width? with
  | some chomping, _ =>
    match second.bind width? with
    | some 0 => none
    | some width => some (chomping, width, c.skip 2)
    | none => some (chomping, 0, c.skip 1)
  | none, some 0 => none
  | none, some width =>
    match second.bind chomping? with
    | some chomping => some (chomping, width, c.skip 2)
    | none => some (.clip, width, c.skip 1)
  | none, none => some (.clip, 0, c)

/-- Passes empty lines of a block scalar and the indentation of the next line.  Gives the line
    breaks, the deepest column reached, and the place.  An indentation of zero is open. -/
def readBlockBreaks? (indent : Nat) :
    Nat → List Char → Nat → Cursor → Option (List Char × Nat × Cursor)
  | 0, _, _, _ => none
  | fuel + 1, breaks, deepest, c =>
    let spaces := (c.rest.takeWhile (· = ' ')).length
    let c := c.skip (if indent = 0 then spaces else min spaces (indent - c.column))
    let deepest := max deepest c.column
    if (indent = 0 || c.column < indent) && c.rest.head? == some '\t' then none
    else
      match c.lineBreak? with
      | some b => readBlockBreaks? indent fuel (breaks ++ [b]) deepest c.next
      | none => some (breaks, deepest, c)

/-- The lines of a block scalar.  `pending` holds the break of the line before, `breaks` those
    of the empty lines after it, and `deep` tells whether that line started with a blank. -/
def readBlockLines? (literal : Bool) (chomping : Chomping) (indent : Nat) :
    Nat → List Char → List Char → List Char → Bool → Cursor → Option (List Char × Cursor)
  | 0, _, _, _, _, _ => none
  | fuel + 1, text, pending, breaks, deep, c =>
    if c.column != indent || c.rest.isEmpty then
      some (text ++ (if chomping = .strip then [] else pending)
        ++ (if chomping = .keep then breaks else []), c)
    else
      let startsDeep := (c.rest.take 1).any isGap
      let between :=
        if !literal && pending == ['\n'] && !deep && !startsDeep then
          if breaks.isEmpty then [' '] else breaks
        else pending ++ breaks
      let line := c.rest.takeWhile fun d => !isBreak d
      let atBreak := c.skip line.length
      let pending := atBreak.lineBreak?.toList
      do
        let (breaks, _, next) ← readBlockBreaks? indent fuel [] 0 atBreak.next
        readBlockLines? literal chomping indent fuel (text ++ between ++ line) pending breaks
          startsDeep next

/-- A block scalar after its indicator, inside a block indented by `parent`. -/
def readBlock? (literal : Bool) (parent : Int) (c : Cursor) : Option (List Char × Cursor) := do
  let fuel := c.rest.length + 2
  let (chomping, width, afterHeader) ← readBlockHeader? c
  let afterBlanks := afterHeader.skip (afterHeader.rest.takeWhile isGap).length
  let atBreak := if afterBlanks.rest.head? == some '#' then afterBlanks.skipLine else afterBlanks
  if !atBreak.rest.isEmpty && atBreak.lineBreak?.isNone then none
  else do
    let given := if width = 0 then 0 else (max parent 0).toNat + width
    let (breaks, deepest, first) ← readBlockBreaks? given fuel [] 0 atBreak.next
    let indent := if given = 0 then max deepest (max (parent + 1).toNat 1) else given
    readBlockLines? literal chomping indent fuel [] [] breaks false first

end CallGuard.Yaml
