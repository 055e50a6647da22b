/-!
# Blank characters

The characters with the `White_Space` property of Unicode, and trimming by them.
-/

namespace CallGuard

/-- The blanks outside the tab-to-carriage-return run and the run of typographic spaces. -/
def scatteredBlanks : List Nat := [0x20, 0x85, 0xa0, 0x1680, 0x2028, 0x2029, 0x202f, 0x205f, 0x3000]

/-- Whether a character is blank. -/
def isBlank (c : Char) : Bool :=
  (0x9 ≤ c.toNat && c.toNat ≤ 0xd) || (0x2000 ≤ c.toNat && c.toNat ≤ 0x200a)
    || scatteredBlanks.contains c.toNat

/-- No visible character of ASCII is blank. -/
theorem isBlank_of_visible {c : Char} (above : 0x20 < c.toNat) (below : c.toNat < 0x7f) :
    isBlank c = false := by
  simp [isBlank, scatteredBlanks]
  omega

theorem isBlank_of_between {first last c : Char} (visible : 0x20 < first.toNat)
    (visible' : last.toNat < 0x7f) (above : first ≤ c) (below : c ≤ last) : isBlank c = false := by
  apply isBlank_of_visible
  · exact Nat.lt_of_lt_of_le visible above
  · exact Nat.lt_of_le_of_lt below visible'

theorem isBlank_of_isAlphanum {c : Char} (alphanum : c.isAlphanum = true) : isBlank c = false := by
  rcases Bool.or_eq_true_iff.mp alphanum with letter | digit
  · rcases Bool.or_eq_true_iff.mp letter with upper | lower
    · obtain ⟨above, below⟩ := of_decide_eq_true upper
      exact isBlank_of_between (by decide) (by decide) above below
    · obtain ⟨above, below⟩ := Bool.and_eq_true_iff.mp lower
      exact isBlank_of_between (by decide) (by decide) (of_decide_eq_true above)
        (of_decide_eq_true below)
  · obtain ⟨above, below⟩ := Bool.and_eq_true_iff.mp digit
    exact isBlank_of_between (by decide) (by decide) (of_decide_eq_true above)
      (of_decide_eq_true below)

theorem visible_iff {text : List Char} :
    (∀ c ∈ text, isBlank c = false) ↔ text.any isBlank = false := by
  simp only [List.any_eq_false, Bool.not_eq_true]

/-- Without the blanks in front. -/
def trimStart (text : List Char) : List Char := text.dropWhile isBlank

/-- Without the blanks at the end. -/
def trimEnd (text : List Char) : List Char := (text.reverse.dropWhile isBlank).reverse

/-- Without the blanks at either end. -/
def trim (text : List Char) : List Char := trimEnd (trimStart text)

variable {before core after : List Char}

theorem trimStart_append (blanks : ∀ c ∈ before, isBlank c = true) :
    trimStart (before ++ after) = trimStart after := List.dropWhile_append_of_pos blanks

theorem trimStart_cons {c : Char} (visible : isBlank c = false) :
    trimStart (c :: after) = c :: after :=
  List.dropWhile_cons_of_neg (by simp [visible])

theorem trimEnd_append (blanks : ∀ c ∈ after, isBlank c = true) :
    trimEnd (before ++ after) = trimEnd before := by
  rw [trimEnd, List.reverse_append, List.dropWhile_append_of_pos (by simpa using blanks)]
  rfl

theorem trimEnd_eq_self (visible : ∀ c ∈ core, isBlank c = false) : trimEnd core = core := by
  rw [trimEnd, List.reverse_eq_iff]
  cases backwards : core.reverse with
  | nil => rfl
  | cons c rest =>
    have member : c ∈ core := List.mem_reverse.mp (backwards ▸ List.mem_cons_self ..)
    exact trimStart_cons (visible c member)

/-- Trimming gives back a text without blanks that stands between blanks. -/
theorem trim_padded (blanks : ∀ c ∈ before, isBlank c = true)
    (visible : ∀ c ∈ core, isBlank c = false) (blanks' : ∀ c ∈ after, isBlank c = true) :
    trim (before ++ core ++ after) = core := by
  rw [trim, List.append_assoc, trimStart_append blanks]
  cases core with
  | nil =>
    rw [List.nil_append, ← List.append_nil after, trimStart_append blanks']
    rfl
  | cons c rest =>
    rw [List.cons_append, trimStart_cons (visible c (List.mem_cons_self ..)), ← List.cons_append,
      trimEnd_append blanks', trimEnd_eq_self visible]

end CallGuard
