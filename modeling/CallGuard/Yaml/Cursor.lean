/-!
# Places in a YAML text

A cursor is the rest of a text with the line and column it starts at.  Line breaks are line
feeds, carriage returns, a pair of the two, and the three breaks beyond ASCII.
-/

namespace CallGuard.Yaml

/-- Whether a character breaks lines. -/
def isBreak (c : Char) : Bool :=
  c = '\n' || c = '\r' || c = '\u0085' || c = '\u2028' || c = '\u2029'

/-- Whether a character separates words on a line. -/
def isGap (c : Char) : Bool := c = ' ' || c = '\t'

/-- Whether a word ends before a text. -/
def atWordEnd : List Char → Bool
  | [] => true
  | c :: _ => isGap c || isBreak c

/-- Whether a character may occur in a YAML text at all. -/
def isPrintable (c : Char) : Bool :=
  c = '\t' || c = '\n' || c = '\r' || c = '\u0085'
    || (0x20 ≤ c.toNat && c.toNat ≤ 0x7e) || (0xa0 ≤ c.toNat && c.toNat ≤ 0xfffd)
    || 0x10000 ≤ c.toNat

/-- A place in a text. -/
structure Cursor where
  rest : List Char
  line : Nat
  column : Nat
  /-- The number of characters before the place. -/
  index : Nat

namespace Cursor

/-- The start of a text. -/
def start (text : List Char) : Cursor := ⟨text, 0, 0, 0⟩

/-- The next place; a line break is passed as a whole. -/
def next (c : Cursor) : Cursor :=
  match c.rest with
  | [] => c
  | '\r' :: '\n' :: rest => ⟨rest, c.line + 1, 0, c.index + 2⟩
  | d :: rest =>
    if isBreak d then ⟨rest, c.line + 1, 0, c.index + 1⟩
    else ⟨rest, c.line, c.column + 1, c.index + 1⟩

/-- Every step but the one at the end shortens the rest. -/
theorem length_rest_next {c : Cursor} (h : c.rest ≠ []) :
    c.next.rest.length < c.rest.length := by
  obtain ⟨rest, line, column, index⟩ := c
  match rest with
  | [] => exact absurd rfl h
  | [d] =>
    unfold next
    split
    · next heq => exact absurd heq h
    · next heq => simp only [List.cons.injEq, reduceCtorEq, and_false] at heq
    · next heq =>
      simp only [List.cons.injEq] at heq
      obtain ⟨-, rfl⟩ := heq
      split <;> exact Nat.zero_lt_one
  | d :: e :: tail =>
    unfold next
    split
    · next heq => exact absurd heq h
    · next heq =>
      simp only [List.cons.injEq] at heq
      obtain ⟨-, -, rfl⟩ := heq
      simp only [List.length_cons]
      omega
    · next heq =>
      simp only [List.cons.injEq] at heq
      obtain ⟨-, rfl⟩ := heq
      split <;> exact Nat.lt_succ_self _

/-- The place so many characters on, on one line. -/
def skip (c : Cursor) (count : Nat) : Cursor :=
  ⟨c.rest.drop count, c.line, c.column + count, c.index + count⟩

/-- What a line break in front stands for: the two rare separators stand for themselves, the
    others for a line feed. -/
def lineBreak? (c : Cursor) : Option Char :=
  match c.rest with
  | d :: _ => if isBreak d then some (if d = '\u2028' || d = '\u2029' then d else '\n') else none
  | [] => none

/-- Whether a document marker of three equal characters stands at the start of a line. -/
def atMarker (c : Cursor) (mark : Char) : Bool :=
  c.column == 0 && c.rest.take 3 == [mark, mark, mark] && atWordEnd (c.rest.drop 3)

/-- Whether a document starts or ends here. -/
def atAnyMarker (c : Cursor) : Bool := c.atMarker '-' || c.atMarker '.'

/-- Skips the rest of the line up to its break. -/
def skipLine (c : Cursor) : Cursor := c.skip (c.rest.takeWhile fun d => !isBreak d).length

end Cursor

/-- The first line break between two words. -/
inductive GapBreak where
  | none
  | char (c : Char)
  /-- A break that a backslash takes out of the text. -/
  | escaped
  deriving DecidableEq

/-- Blanks and line breaks between two words of a scalar. -/
structure Gap where
  /-- The blanks before the first line break. -/
  blanks : List Char
  first : GapBreak
  /-- The line breaks after the first. -/
  more : List Char

namespace Gap

/-- No gap. -/
def empty : Gap := ⟨[], .none, []⟩

/-- Whether a line ends in the gap. -/
def breaks (gap : Gap) : Bool := gap.first != .none

/-- What a gap is folded to: one line break to a space, more to one fewer. -/
def folded (gap : Gap) : List Char :=
  match gap.first with
  | .none => gap.blanks
  | .escaped => gap.more
  | .char c =>
    if c != '\n' then c :: gap.more
    else if gap.more.isEmpty then [' ']
    else gap.more

end Gap

namespace Cursor

/-- Passes blanks and line breaks.  Fails at a tab before column `indent` of a line that
    starts in the gap. -/
def readGap? (indent : Nat) (c : Cursor) (gap : Gap) : Option (Gap × Cursor) :=
  match h : c.rest with
  | [] => some (gap, c)
  | d :: _ =>
    have : c.next.rest.length < c.rest.length := length_rest_next (by simp [h])
    if isGap d then
      if gap.breaks then
        if d = '\t' && c.column < indent then none else readGap? indent c.next gap
      else readGap? indent c.next { gap with blanks := gap.blanks ++ [d] }
    else
      match c.lineBreak? with
      | some b =>
        if gap.breaks then readGap? indent c.next { gap with more := gap.more ++ [b] }
        else readGap? indent c.next { gap with first := .char b }
      | none => some (gap, c)
termination_by c.rest.length

end Cursor

end CallGuard.Yaml
