import CallGuard.Number.Numeral
import CallGuard.Text.Blank
import Mathlib.Algebra.Order.Ring.Int

/-!
# Decimal numerals

A decimal numeral is a run of digits after at most one sign.  The reader accepts the numerals and
nothing else, and the text of an integer is a numeral, so that reading it gives the integer back,
also with blanks around it.
-/

namespace CallGuard

/-! ## Digits -/

/-- One or more decimal digits. -/
structure DigitRun (text : List Char) : Prop where
  nonempty : text ≠ []
  digits : ∀ c ∈ text, c.isDigit = true

theorem isDigit_iff {c : Char} : c.isDigit = true ↔ 48 ≤ c.toNat ∧ c.toNat ≤ 57 := by
  rw [Char.isDigit, Bool.and_eq_true, decide_eq_true_iff, decide_eq_true_iff]
  exact Iff.rfl

theorem char_le_iff {c d : Char} : c ≤ d ↔ c.toNat ≤ d.toNat := Iff.rfl

/-- In base ten only the digits have a value, since that of every letter is ten or more. -/
theorem digitValue?_ten (c : Char) :
    digitValue? 10 c = if c.isDigit then some (c.toNat - '0'.toNat) else none := by
  unfold digitValue?
  simp only [Bool.and_eq_true, decide_eq_true_eq, char_le_iff]
  have codes : '0'.toNat = 48 ∧ '9'.toNat = 57 ∧ 'a'.toNat = 97 ∧ 'A'.toNat = 65 := by decide
  by_cases digit : '0'.toNat ≤ c.toNat ∧ c.toNat ≤ '9'.toNat
  · rw [if_pos digit, if_pos (isDigit_iff.mpr (by omega)), if_pos (by omega)]
  · rw [if_neg digit, if_neg (mt isDigit_iff.mp (by omega))]
    apply if_neg
    split
    · omega
    · split <;> omega

/-- Reading digits onto a value appends them to the digits of the value. -/
theorem readDigits?_eq_some_iff {text : List Char} {value n : Nat} :
    readDigits? 10 value text = some n ↔
      (∀ c ∈ text, c.isDigit = true) ∧ Nat.ofDigitChars 10 text value = n := by
  induction text generalizing value with
  | nil => simp [readDigits?]
  | cons c rest ih =>
    rw [readDigits?, digitValue?_ten]
    by_cases digit : c.isDigit = true
    · rw [if_pos digit, ih, List.forall_mem_cons, Nat.ofDigitChars_cons, Nat.mul_comm 10]
      exact and_congr_left fun _ => (and_iff_right digit).symm
    · simp [digit]

theorem readNat?_eq_some_iff {text : List Char} {n : Nat} :
    readNat? 10 text = some n ↔ DigitRun text ∧ Nat.ofDigitChars 10 text 0 = n := by
  cases text with
  | nil => simpa [readNat?] using fun run : DigitRun [] => absurd rfl run.nonempty
  | cons c rest =>
    rw [readNat?, List.isEmpty_cons, if_neg Bool.false_ne_true, readDigits?_eq_some_iff]
    refine and_congr_left fun _ => ⟨fun digits => ?_, fun run => run.digits⟩
    exact ⟨List.cons_ne_nil _ _, digits⟩

theorem digitsValue_eq (digits : List Char) :
    digitsValue digits = Nat.ofDigitChars 10 digits 0 := by
  unfold digitsValue Nat.ofDigitChars
  simp only [Nat.mul_comm]

theorem ofDigitChars_lt_mul {digits : List Char} (inside : ∀ c ∈ digits, c.isDigit = true)
    (value : Nat) : Nat.ofDigitChars 10 digits value < (value + 1) * 10 ^ digits.length := by
  induction digits generalizing value with
  | nil => simp
  | cons c rest ih =>
    rw [List.forall_mem_cons] at inside
    have bounds := isDigit_iff.mp inside.1
    have zero : '0'.toNat = 48 := rfl
    rw [Nat.ofDigitChars_cons, List.length_cons, Nat.pow_succ', ← Nat.mul_assoc]
    calc Nat.ofDigitChars 10 rest (10 * value + (c.toNat - '0'.toNat))
        < (10 * value + (c.toNat - '0'.toNat) + 1) * 10 ^ rest.length := ih inside.2 _
      _ ≤ (value + 1) * 10 * 10 ^ rest.length := Nat.mul_le_mul_right _ (by omega)

/-- A number has no more digits than are written. -/
theorem ofDigitChars_lt {digits : List Char} (inside : ∀ c ∈ digits, c.isDigit = true) :
    Nat.ofDigitChars 10 digits 0 < 10 ^ digits.length := by
  simpa using ofDigitChars_lt_mul inside 0

/-! ## Signs -/

/-- The numerals of an integer. -/
inductive IsNumeral : List Char → Int → Prop
  | bare {digits : List Char} (run : DigitRun digits) :
      IsNumeral digits (Nat.ofDigitChars 10 digits 0)
  | plus {digits : List Char} (run : DigitRun digits) :
      IsNumeral ('+' :: digits) (Nat.ofDigitChars 10 digits 0)
  | minus {digits : List Char} (run : DigitRun digits) :
      IsNumeral ('-' :: digits) (-(Nat.ofDigitChars 10 digits 0 : Int))

/-- The reader reads the numerals, as the integers they stand for. -/
theorem readInt?_eq_some_iff {text : List Char} {i : Int} :
    readInt? 10 text = some i ↔ IsNumeral text i := by
  constructor
  · unfold readInt?
    split
    all_goals
      rw [Option.map_eq_some_iff]
      rintro ⟨_, signed, rfl⟩
      obtain ⟨n, read, ⟨⟩⟩ := Option.bind_eq_some_iff.mp signed
      obtain ⟨run, rfl⟩ := readNat?_eq_some_iff.mp read
    · exact .minus run
    · exact .plus run
    · exact .bare run
  · intro numeral
    cases numeral with
    | bare run =>
      -- The reader looks for a sign first, and no digit is one.
      have read := readNat?_eq_some_iff.mpr ⟨run, rfl⟩
      unfold readInt?
      split
      · exact absurd (run.digits '-' (List.mem_cons_self ..)) (by decide)
      · exact absurd (run.digits '+' (List.mem_cons_self ..)) (by decide)
      · rw [read]
        rfl
    | plus run =>
      rw [readInt?, readNat?_eq_some_iff.mpr ⟨run, rfl⟩]
      rfl
    | minus run =>
      rw [readInt?, readNat?_eq_some_iff.mpr ⟨run, rfl⟩]
      rfl

theorem isBlank_of_isDigit {c : Char} (digit : c.isDigit = true) : isBlank c = false := by
  apply isBlank_of_isAlphanum
  rw [Char.isAlphanum, digit, Bool.or_true]

/-- No numeral has blanks in it. -/
theorem IsNumeral.visible {text : List Char} {i : Int} (numeral : IsNumeral text i) :
    ∀ c ∈ text, isBlank c = false := by
  cases numeral with
  | bare run => exact fun c member => isBlank_of_isDigit (run.digits c member)
  | plus run | minus run =>
    intro c member
    rcases List.mem_cons.mp member with rfl | member
    · decide
    · exact isBlank_of_isDigit (run.digits c member)

theorem IsNumeral.ne_nil {text : List Char} {i : Int} (numeral : IsNumeral text i) : text ≠ [] := by
  cases numeral with
  | bare run => exact run.nonempty
  | plus run | minus run => exact List.cons_ne_nil _ _

/-- The digits of a natural number are a run of digits. -/
theorem digitRun_toDigits (n : Nat) : DigitRun (Nat.toDigits 10 n) where
  nonempty := Nat.toDigits_ne_nil
  digits := fun _ member => Nat.isDigit_of_mem_toDigits (by decide) (by decide) member

theorem isNumeral_intText (i : Int) : IsNumeral (intText i) i := by
  have run := digitRun_toDigits i.natAbs
  have value := @Nat.ofDigitChars_ten_toDigits i.natAbs
  unfold intText
  split
  · next negative =>
    have numeral := IsNumeral.minus run
    rwa [value, show -(i.natAbs : Int) = i by omega] at numeral
  · next nonneg =>
    have numeral := IsNumeral.bare run
    rwa [value, show (i.natAbs : Int) = i by omega] at numeral

/-! ## The range of the integers -/

theorem int64?_eq_some_iff {n : Int} {i : Int64} : int64? n = some i ↔ n = i.toInt := by
  have lowest : Int64.minValue.toInt = -2 ^ 63 := rfl
  have highest : Int64.maxValue.toInt = 2 ^ 63 - 1 := rfl
  have least := i.le_toInt
  have most := i.toInt_lt
  unfold int64?
  rw [lowest, highest, Option.ite_none_right_eq_some, Bool.and_eq_true, decide_eq_true_eq,
    decide_eq_true_eq, Option.some.injEq]
  constructor
  · rintro ⟨inRange, rfl⟩
    exact (Int64.toInt_ofInt_of_le inRange.1 (by omega)).symm
  · rintro rfl
    exact ⟨⟨least, by omega⟩, Int64.ofInt_toInt i⟩

theorem exists_toInt_iff {n : Int} : (∃ i : Int64, i.toInt = n) ↔ -2 ^ 63 ≤ n ∧ n < 2 ^ 63 := by
  constructor
  · rintro ⟨i, rfl⟩
    exact ⟨i.le_toInt, i.toInt_lt⟩
  · rintro ⟨least, most⟩
    exact ⟨Int64.ofInt n, Int64.toInt_ofInt_of_le least most⟩

theorem isNumeral_int64Text (i : Int64) : IsNumeral (int64Text i).toList i.toInt := by
  rw [int64Text, String.toList_ofList]
  exact isNumeral_intText i.toInt

end CallGuard
