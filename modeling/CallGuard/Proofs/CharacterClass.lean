import Mathlib.Computability.Language
import Mathlib.Data.List.TakeWhile

/-!
# Classes of characters

The languages of the texts whose characters are of one class, and runs of a class at the front of a
text.  A run that is followed by a character outside of its class is the longest one, so that the
text can be taken apart again behind it.
-/

namespace CallGuard

open Computability

/-! ## Languages -/

/-- The texts that are one character of a class. -/
def charIn (inClass : Char → Bool) : Language Char := {text | ∃ c, inClass c = true ∧ text = [c]}

variable {inClass : Char → Bool} {text : List Char} {others : Language Char}

theorem mem_charIn_mul_iff : text ∈ charIn inClass * others ↔
    ∃ c rest, text = c :: rest ∧ inClass c = true ∧ rest ∈ others := by
  rw [Language.mem_mul]
  constructor
  · rintro ⟨_, ⟨c, member, rfl⟩, rest, tail, rfl⟩
    exact ⟨c, rest, rfl, member, tail⟩
  · rintro ⟨c, rest, rfl, member, tail⟩
    exact ⟨[c], ⟨c, member, rfl⟩, rest, tail, rfl⟩

theorem mem_mul_separator_mul_iff {separator : Char} {before after : Language Char} :
    text ∈ before * (charIn (· == separator) * after) ↔
      ∃ front ∈ before, ∃ rest ∈ after, front ++ separator :: rest = text := by
  rw [Language.mem_mul]
  simp only [mem_charIn_mul_iff, beq_iff_eq]
  constructor
  · rintro ⟨front, first, _, ⟨_, rest, rfl, rfl, last⟩, same⟩
    exact ⟨front, first, rest, last, same⟩
  · rintro ⟨front, first, rest, last, same⟩
    exact ⟨front, first, _, ⟨separator, rest, rfl, rfl, last⟩, same⟩

theorem mem_kstar_charIn_iff : text ∈ (charIn inClass)∗ ↔ ∀ c ∈ text, inClass c = true := by
  rw [Language.mem_kstar]
  constructor
  · rintro ⟨pieces, rfl, each⟩ c member
    obtain ⟨piece, among, inside⟩ := List.mem_flatten.mp member
    obtain ⟨d, holds, rfl⟩ := each piece among
    rwa [List.mem_singleton.mp inside]
  · intro each
    refine ⟨text.map ([·]), (List.flatMap_singleton' text).symm, ?_⟩
    intro piece among
    obtain ⟨c, member, rfl⟩ := List.mem_map.mp among
    exact ⟨c, each c member, rfl⟩

/-- The texts that are so many characters of a class or more. -/
def atLeast (count : ℕ) (inClass : Char → Bool) : Language Char :=
  charIn inClass ^ count * (charIn inClass)∗

theorem mem_atLeast_iff {count : ℕ} : text ∈ atLeast count inClass ↔
    count ≤ text.length ∧ ∀ c ∈ text, inClass c = true := by
  induction count generalizing text with
  | zero =>
    rw [atLeast, pow_zero, one_mul, mem_kstar_charIn_iff]
    exact (and_iff_right (Nat.zero_le _)).symm
  | succ count ih =>
    rw [atLeast, pow_succ', mul_assoc, ← atLeast, mem_charIn_mul_iff]
    constructor
    · rintro ⟨c, rest, rfl, first, tail⟩
      obtain ⟨long, each⟩ := ih.mp tail
      exact ⟨Nat.succ_le_succ long, List.forall_mem_cons.mpr ⟨first, each⟩⟩
    · rintro ⟨long, each⟩
      obtain ⟨c, rest, rfl⟩ := List.exists_cons_of_length_pos (Nat.zero_lt_of_lt long)
      obtain ⟨first, tail⟩ := List.forall_mem_cons.mp each
      exact ⟨c, rest, rfl, first, ih.mpr ⟨Nat.le_of_succ_le_succ long, tail⟩⟩

/-! ## Runs at the front -/

variable {front rest : List Char} {next : Char}

theorem takeWhile_run (run : ∀ c ∈ front, inClass c = true) (outside : inClass next = false) :
    (front ++ next :: rest).takeWhile inClass = front := by
  rw [List.takeWhile_append_of_pos run, List.takeWhile_cons_of_neg (by simp [outside]),
    List.append_nil]

theorem dropWhile_run (run : ∀ c ∈ front, inClass c = true) (outside : inClass next = false) :
    (front ++ next :: rest).dropWhile inClass = next :: rest := by
  rw [List.dropWhile_append_of_pos run, List.dropWhile_cons_of_neg (by simp [outside])]

theorem takeWhile_append_of_dropWhile (left : text.dropWhile inClass = next :: rest) :
    text.takeWhile inClass ++ next :: rest = text := by
  rw [← left, List.takeWhile_append_dropWhile]

theorem notMem_of_run (run : ∀ c ∈ front, inClass c = true) (outside : inClass next = false) :
    next ∉ front := by
  intro member
  rw [run next member] at outside
  cases outside

end CallGuard
