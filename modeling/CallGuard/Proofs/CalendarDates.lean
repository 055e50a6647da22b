import CallGuard.Proofs.Numerals
import CallGuard.StringFormat
import Mathlib.Data.List.TakeWhile
import Mathlib.Tactic.IntervalCases

/-!
# Calendar dates

A date is a day of the Gregorian calendar, whose three numbers are written with hyphens between
them.  The reader does not ask for the usual widths: it takes blanks before each number, short
numbers and a sign before the year.  Among the texts of four, two and two digits it takes the dates
and no others.
-/

namespace CallGuard

/-! ## The calendar -/

/-- The leap years of the Gregorian calendar. -/
def IsLeap (year : ℤ) : Prop := 4 ∣ year ∧ (100 ∣ year → 400 ∣ year)

instance (year : ℤ) : Decidable (IsLeap year) := inferInstanceAs (Decidable (_ ∧ _))

/-- The lengths of the months from January to December. -/
def monthLengths (year : ℤ) : List ℕ :=
  [31, if IsLeap year then 29 else 28, 31, 30, 31, 30, 31, 31, 30, 31, 30, 31]

/-- A day of the calendar. -/
def CalendarDay (year : ℤ) (month day : ℕ) : Prop :=
  1 ≤ month ∧ 1 ≤ day ∧ ∃ length, (monthLengths year)[month - 1]? = some length ∧ day ≤ length

theorem isLeapYear_iff {year : ℤ} : isLeapYear year = true ↔ IsLeap year := by
  simp only [isLeapYear, IsLeap, Bool.and_eq_true, Bool.or_eq_true, beq_iff_eq, bne_iff_ne]
  omega

theorem getElem?_monthLengths {year : ℤ} {month : ℕ} (least : 1 ≤ month) (most : month ≤ 12) :
    (monthLengths year)[month - 1]? = some (daysInMonth year month) := by
  have february : daysInMonth year 2 = if IsLeap year then 29 else 28 := by
    simp only [daysInMonth, isLeapYear_iff, if_true]
  interval_cases month
  case «2» => rw [february]; rfl
  all_goals rfl

theorem isCalendarDate_iff {year : ℤ} {month day : ℕ} : isCalendarDate year month day = true ↔
    firstYear ≤ year ∧ year ≤ lastYear ∧ CalendarDay year month day := by
  simp only [isCalendarDate, Bool.and_eq_true, decide_eq_true_eq, and_assoc, CalendarDay]
  refine and_congr_right fun _ => and_congr_right fun _ => and_congr_right fun least => ?_
  constructor
  · rintro ⟨most, first, last⟩
    exact ⟨first, _, getElem?_monthLengths least most, last⟩
  · rintro ⟨first, length, found, last⟩
    have most : month ≤ 12 := by
      have inside := (List.getElem?_eq_some_iff.mp found).1
      simp only [monthLengths, List.length_cons, List.length_nil] at inside
      omega
    rw [getElem?_monthLengths least most, Option.some.injEq] at found
    exact ⟨most, first, found ▸ last⟩

/-! ## Numbers in front of a text -/

/-- Blanks and then up to so many digits in front of a text. -/
def NumberInFront (width : ℕ) (text : List Char) (n : ℕ) (rest : List Char) : Prop :=
  ∃ blanks digits, (∀ c ∈ blanks, isBlank c = true) ∧ DigitRun digits ∧ digits.length ≤ width ∧
    Nat.ofDigitChars 10 digits 0 = n ∧ text = blanks ++ (digits ++ rest)

/-- Blanks and then a numeral in front of a text, up to four digits or a sign and any number of
    digits. -/
def YearInFront (text : List Char) (year : ℤ) (rest : List Char) : Prop :=
  ∃ blanks numeral, (∀ c ∈ blanks, isBlank c = true) ∧ IsNumeral numeral year ∧
    (DigitRun numeral → numeral.length ≤ 4) ∧ text = blanks ++ (numeral ++ rest)

variable {width n : ℕ} {text digits rest : List Char}

theorem exists_blanks (text : List Char) :
    ∃ blanks, (∀ c ∈ blanks, isBlank c = true) ∧ text = blanks ++ trimStart text :=
  ⟨text.takeWhile isBlank, fun _ member => List.mem_takeWhile_imp member,
    List.takeWhile_append_dropWhile.symm⟩

theorem trimStart_visible {blanks core : List Char} (blank : ∀ c ∈ blanks, isBlank c = true)
    (visible : ∀ c ∈ core, isBlank c = false) (nonempty : core ≠ []) :
    trimStart (blanks ++ (core ++ rest)) = core ++ rest := by
  obtain ⟨c, tail, rfl⟩ := List.exists_cons_of_ne_nil nonempty
  rw [trimStart_append blank, List.cons_append, trimStart_cons (visible c (List.mem_cons_self ..))]

theorem exists_digits_of_readPadded? (read : readPadded? width text = some (n, rest)) :
    ∃ digits, DigitRun digits ∧ digits.length ≤ width ∧ Nat.ofDigitChars 10 digits 0 = n ∧
      text = digits ++ rest := by
  unfold readPadded? at read
  generalize taken : (text.take width).takeWhile Char.isDigit = digits at read
  have inside : ∀ c ∈ digits, c.isDigit = true := fun c member =>
    List.mem_takeWhile_imp (taken ▸ member)
  have front : digits <+: text.take width := taken ▸ List.takeWhile_prefix _
  have short : digits.length ≤ width := front.length_le.trans (List.length_take_le ..)
  simp only [Option.ite_none_left_eq_some, Option.some.injEq, Prod.mk.injEq] at read
  obtain ⟨some, rfl, rfl⟩ := read
  refine ⟨digits, ⟨by simpa using some, inside⟩, short, (digitsValue_eq digits).symm, ?_⟩
  exact List.prefix_iff_eq_append.mp (front.trans (List.take_prefix ..)) |>.symm

/-- The reader takes all the digits in front, where they are not too many and no other follows. -/
theorem readPadded?_append (run : DigitRun digits) (short : digits.length ≤ width)
    (stop : ∀ c ∈ rest.head?, c.isDigit = false) :
    readPadded? width (digits ++ rest) = some (Nat.ofDigitChars 10 digits 0, rest) := by
  have none : rest.takeWhile Char.isDigit = [] := by
    cases rest with
    | nil => rfl
    | cons c tail => exact List.takeWhile_cons_of_neg (by simp [stop c rfl])
  have taken : ((digits ++ rest).take width).takeWhile Char.isDigit = digits := by
    rw [← List.take_takeWhile, List.takeWhile_append_of_pos run.digits, none, List.append_nil,
      List.take_of_length_le short]
  have some : ¬digits.isEmpty = true := by simpa using run.nonempty
  unfold readPadded?
  simp only [taken]
  rw [if_neg some, digitsValue_eq, List.drop_left]

theorem readPadded?_trimStart_iff (stop : ∀ c ∈ rest.head?, c.isDigit = false) :
    readPadded? width (trimStart text) = some (n, rest) ↔ NumberInFront width text n rest := by
  constructor
  · intro read
    obtain ⟨digits, run, short, value, split⟩ := exists_digits_of_readPadded? read
    obtain ⟨blanks, blank, parts⟩ := exists_blanks text
    exact ⟨blanks, digits, blank, run, short, value, by rw [← split, ← parts]⟩
  · rintro ⟨blanks, digits, blank, run, short, rfl, rfl⟩
    rw [trimStart_visible blank (IsNumeral.bare run).visible run.nonempty,
      readPadded?_append run short stop]

theorem not_digitRun_cons {sign : Char} (other : sign.isDigit = false) :
    ¬DigitRun (sign :: digits) := by
  intro run
  rw [run.digits sign (List.mem_cons_self ..)] at other
  cases other

theorem exists_numeral_of_readYear? {year : ℤ} (read : readYear? text = some (year, rest)) :
    ∃ numeral, IsNumeral numeral year ∧ (DigitRun numeral → numeral.length ≤ 4) ∧
      text = numeral ++ rest := by
  unfold readYear? at read
  split at read
  · obtain ⟨⟨n, after⟩, unsigned, ⟨⟩⟩ := Option.map_eq_some_iff.mp read
    obtain ⟨digits, run, -, rfl, rfl⟩ := exists_digits_of_readPadded? unsigned
    exact ⟨'-' :: digits, .minus run, fun bare => absurd bare (not_digitRun_cons rfl), rfl⟩
  · obtain ⟨⟨n, after⟩, unsigned, ⟨⟩⟩ := Option.map_eq_some_iff.mp read
    obtain ⟨digits, run, -, rfl, rfl⟩ := exists_digits_of_readPadded? unsigned
    exact ⟨'+' :: digits, .plus run, fun bare => absurd bare (not_digitRun_cons rfl), rfl⟩
  · obtain ⟨⟨n, after⟩, unsigned, ⟨⟩⟩ := Option.map_eq_some_iff.mp read
    obtain ⟨digits, run, short, rfl, rfl⟩ := exists_digits_of_readPadded? unsigned
    exact ⟨digits, .bare run, fun _ => short, rfl⟩

theorem readYear?_append {numeral : List Char} {year : ℤ} (stands : IsNumeral numeral year)
    (short : DigitRun numeral → numeral.length ≤ 4) (stop : ∀ c ∈ rest.head?, c.isDigit = false) :
    readYear? (numeral ++ rest) = some (year, rest) := by
  cases stands with
  | plus run | minus run =>
    rw [List.cons_append, readYear?, readPadded?_append run (by simp) stop]
    rfl
  | bare run =>
    have read := readPadded?_append run (short run) stop
    obtain ⟨c, tail, rfl⟩ := List.exists_cons_of_ne_nil run.nonempty
    have digit := run.digits c (List.mem_cons_self ..)
    unfold readYear?
    split
    · next same =>
      rw [List.cons_append] at same
      exact absurd digit ((List.cons.inj same).1 ▸ by decide)
    · next same =>
      rw [List.cons_append] at same
      exact absurd digit ((List.cons.inj same).1 ▸ by decide)
    · rw [read]
      rfl

theorem readYear?_trimStart_iff {year : ℤ} (stop : ∀ c ∈ rest.head?, c.isDigit = false) :
    readYear? (trimStart text) = some (year, rest) ↔ YearInFront text year rest := by
  constructor
  · intro read
    obtain ⟨numeral, stands, short, split⟩ := exists_numeral_of_readYear? read
    obtain ⟨blanks, blank, parts⟩ := exists_blanks text
    exact ⟨blanks, numeral, blank, stands, short, by rw [← split, ← parts]⟩
  · rintro ⟨blanks, numeral, blank, stands, short, rfl⟩
    rw [trimStart_visible blank stands.visible stands.ne_nil, readYear?_append stands short stop]

/-! ## Dates in a text -/

theorem afterChar?_eq_some_iff {c : Char} : afterChar? c text = some rest ↔ text = c :: rest := by
  cases text with
  | nil => simp [afterChar?]
  | cons d tail => simp [afterChar?, eq_comm]

/-- A year, a month and a day in a text, with hyphens between them. -/
def LooselyWritten (text : List Char) (year : ℤ) (month day : ℕ) : Prop :=
  ∃ afterYear afterMonth, YearInFront text year ('-' :: afterYear) ∧
    NumberInFront 2 afterYear month ('-' :: afterMonth) ∧ NumberInFront 2 afterMonth day []

theorem readDate?_eq_some_iff {year : ℤ} {month day : ℕ} :
    readDate? text = some (year, month, day) ↔ LooselyWritten text year month day := by
  have hyphen : ∀ after : List Char, ∀ c ∈ ('-' :: after).head?, c.isDigit = false := by
    rintro after c ⟨⟩
    rfl
  have nothing : ∀ c ∈ ([] : List Char).head?, c.isDigit = false := by
    rintro c ⟨⟩
  simp only [readDate?, Option.bind_eq_bind, Option.bind_eq_some_iff, Prod.exists,
    afterChar?_eq_some_iff]
  constructor
  · rintro ⟨_, _, first, afterYear, rfl, _, _, second, afterMonth, rfl, _, tail, third, last⟩
    obtain ⟨none, ⟨⟩⟩ := Option.ite_none_right_eq_some.mp last
    obtain rfl := List.isEmpty_iff.mp none
    exact ⟨afterYear, afterMonth, (readYear?_trimStart_iff (hyphen _)).mp first,
      (readPadded?_trimStart_iff (hyphen _)).mp second,
      (readPadded?_trimStart_iff nothing).mp third⟩
  · rintro ⟨afterYear, afterMonth, first, second, third⟩
    exact ⟨year, _, (readYear?_trimStart_iff (hyphen _)).mpr first, afterYear, rfl,
      month, _, (readPadded?_trimStart_iff (hyphen _)).mpr second, afterMonth, rfl,
      day, _, (readPadded?_trimStart_iff nothing).mpr third, rfl⟩

/-! ## Dates of the usual widths -/

/-- A date as four, two and two digits with hyphens between them. -/
def Written (text : List Char) (year : ℤ) (month day : ℕ) : Prop :=
  ∃ years months days : List Char, text = years ++ '-' :: (months ++ '-' :: days) ∧
    years.length = 4 ∧ months.length = 2 ∧ days.length = 2 ∧
    (∀ c ∈ years ++ months ++ days, c.isDigit = true) ∧
    Nat.ofDigitChars 10 years 0 = year ∧ Nat.ofDigitChars 10 months 0 = month ∧
    Nat.ofDigitChars 10 days 0 = day

theorem digitRun_of_length {length : ℕ} (size : digits.length = length + 1)
    (inside : ∀ c ∈ digits, c.isDigit = true) : DigitRun digits :=
  ⟨List.ne_nil_of_length_eq_add_one size, inside⟩

theorem Written.loosely {year : ℤ} {month day : ℕ} (written : Written text year month day) :
    LooselyWritten text year month day := by
  obtain ⟨years, months, days, rfl, size, size', size'', inside, rfl, rfl, rfl⟩ := written
  rw [List.forall_mem_append, List.forall_mem_append] at inside
  have run := digitRun_of_length size inside.1.1
  have run' := digitRun_of_length size' inside.1.2
  have run'' := digitRun_of_length size'' inside.2
  refine ⟨months ++ '-' :: days, days, ?_, ?_, ?_⟩
  · exact ⟨[], years, by simp, .bare run, fun _ => size.le, rfl⟩
  · exact ⟨[], months, by simp, run', size'.le, rfl, rfl⟩
  · exact ⟨[], days, by simp, run'', size''.le, rfl, by simp⟩

theorem Written.length_eq {year : ℤ} {month day : ℕ} (written : Written text year month day) :
    text.length = 10 := by
  obtain ⟨years, months, days, rfl, size, size', size'', -⟩ := written
  simp only [List.length_append, List.length_cons]
  omega

theorem Written.year_bounds {year : ℤ} {month day : ℕ} (written : Written text year month day) :
    0 ≤ year ∧ year < 10 ^ 4 := by
  obtain ⟨years, months, days, -, size, -, -, inside, rfl, -⟩ := written
  rw [List.forall_mem_append, List.forall_mem_append] at inside
  have below := ofDigitChars_lt inside.1.1
  rw [size] at below
  omega

theorem LooselyWritten.unique {year year' : ℤ} {month month' day day' : ℕ}
    (one : LooselyWritten text year month day) (other : LooselyWritten text year' month' day') :
    year = year' ∧ month = month' ∧ day = day' := by
  have same := (readDate?_eq_some_iff.mpr one).symm.trans (readDate?_eq_some_iff.mpr other)
  simpa using same

theorem accepts_date_eq_true_iff {s : String} : StringFormat.date.accepts s = true ↔
    ∃ year month day, LooselyWritten s.toList year month day ∧
      firstYear ≤ year ∧ year ≤ lastYear ∧ CalendarDay year month day := by
  rw [StringFormat.accepts, isDate]
  constructor
  · intro accepted
    cases read : readDate? s.toList with
    | none =>
      rw [read] at accepted
      cases accepted
    | some date =>
      obtain ⟨year, month, day⟩ := date
      rw [read] at accepted
      exact ⟨year, month, day, readDate?_eq_some_iff.mp read, isCalendarDate_iff.mp accepted⟩
  · rintro ⟨year, month, day, written, calendar⟩
    rw [readDate?_eq_some_iff.mpr written]
    exact isCalendarDate_iff.mpr calendar

/-- A text is accepted if and only if a date is written in it, if only loosely.  Among the texts of
    the usual widths the accepted ones are the dates. -/
theorem accepts_date_iff (s : String) :
    (StringFormat.date.accepts s = true ↔
      ∃ year month day, LooselyWritten s.toList year month day ∧
        firstYear ≤ year ∧ year ≤ lastYear ∧ CalendarDay year month day) ∧
    ((∃ year month day, Written s.toList year month day ∧ CalendarDay year month day) ↔
      StringFormat.date.accepts s = true ∧ ∃ year month day, Written s.toList year month day) := by
  rw [accepts_date_eq_true_iff]
  refine ⟨Iff.rfl, ?_⟩
  constructor
  · rintro ⟨year, month, day, written, calendar⟩
    -- Four digits stay far within the years that the calendar has.
    obtain ⟨least, most⟩ := written.year_bounds
    have inRange : firstYear ≤ year ∧ year ≤ lastYear := by
      unfold firstYear lastYear
      omega
    exact ⟨⟨year, month, day, written.loosely, inRange.1, inRange.2, calendar⟩,
      year, month, day, written⟩
  · rintro ⟨⟨year, month, day, loosely, -, -, calendar⟩, year', month', day', written⟩
    -- Both readings of the text are the one that the reader finds.
    obtain ⟨rfl, rfl, rfl⟩ := loosely.unique written.loosely
    exact ⟨year, month, day, written, calendar⟩

/-- A date is accepted without the zeros that fill its numbers up. -/
theorem not_written_of_accepts_date :
    StringFormat.date.accepts "2024-1-5" = true ∧
      ¬∃ year month day, Written "2024-1-5".toList year month day ∧ CalendarDay year month day := by
  refine ⟨by decide, ?_⟩
  rintro ⟨year, month, day, written, -⟩
  exact absurd written.length_eq (by decide)

end CallGuard
