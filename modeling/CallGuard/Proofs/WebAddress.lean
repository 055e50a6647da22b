import CallGuard.Proofs.CharacterClass
import CallGuard.StringFormat

/-!
# Web addresses

The web addresses are the texts of a regular language: a scheme, a character that starts the host,
one that is any but a line feed, and then no blanks.  So a web address starts with one of the
schemes, and it is free of blanks unless the second character after the scheme is one.
-/

namespace CallGuard

open Computability

variable {text : List Char}

/-! ## The language -/

/-- What a web address may start with. -/
def urlSchemes : List (List Char) := ["http://".toList, "https://".toList]

/-- The language of `https?://`. -/
def urlSchemeLanguage : Language Char := {text | text ∈ urlSchemes}

/-- The language of `https?://[^\s/$.?#].[^\s]*`. -/
def urlLanguage : Language Char :=
  urlSchemeLanguage *
    (charIn (fun c => !isBlank c && !"/$.?#".toList.contains c) *
      (charIn (fun c => c != '\n') * (charIn fun c => !isBlank c)∗))

theorem isHostStart_eq : isHostStart = fun c => !isBlank c && !"/$.?#".toList.contains c := by
  funext c
  rw [isHostStart, Bool.eq_iff_iff]
  simp [and_assoc]

/-- A web address in its parts. -/
structure WebAddress where
  scheme : List Char
  first : Char
  second : Char
  rest : List Char
  scheme_mem : scheme ∈ urlSchemes
  first_starts : isHostStart first = true
  second_ne : second ≠ '\n'
  rest_visible : ∀ c ∈ rest, isBlank c = false

/-- The parts of a web address one after the other. -/
def WebAddress.toList (address : WebAddress) : List Char :=
  address.scheme ++ address.first :: address.second :: address.rest

theorem mem_urlLanguage_iff :
    text ∈ urlLanguage ↔ ∃ address : WebAddress, address.toList = text := by
  rw [urlLanguage, ← isHostStart_eq, Language.mem_mul]
  simp only [mem_charIn_mul_iff, mem_kstar_charIn_iff, bne_iff_ne, Bool.not_eq_true']
  constructor
  · rintro ⟨scheme, among, _, ⟨first, _, rfl, starts, second, rest, rfl, feed, visible⟩, rfl⟩
    exact ⟨⟨scheme, first, second, rest, among, starts, feed, visible⟩, rfl⟩
  · rintro ⟨⟨scheme, first, second, rest, among, starts, feed, visible⟩, rfl⟩
    exact ⟨scheme, among, _, ⟨first, _, rfl, starts, second, rest, rfl, feed, visible⟩, rfl⟩

/-! ## The recogniser -/

theorem isUrl_append {scheme rest : List Char} (among : scheme ∈ urlSchemes) :
    isUrl (scheme ++ rest) = isUrlRest rest := by
  rcases List.mem_pair.mp among with rfl | rfl
  · rfl
  · rfl

theorem exists_scheme_of_isUrl (accepted : isUrl text = true) :
    ∃ scheme ∈ urlSchemes, ∃ rest, text = scheme ++ rest := by
  unfold isUrl at accepted
  split at accepted
  · next rest => exact ⟨"https://".toList, by decide, rest, rfl⟩
  · next rest => exact ⟨"http://".toList, by decide, rest, rfl⟩
  · cases accepted

theorem isUrlRest_iff : isUrlRest text = true ↔
    ∃ first second rest, text = first :: second :: rest ∧ isHostStart first = true ∧
      second ≠ '\n' ∧ ∀ c ∈ rest, isBlank c = false := by
  unfold isUrlRest
  split
  · next first second rest => simp [and_assoc]
  · next short =>
    simp only [Bool.false_eq_true, false_iff]
    rintro ⟨first, second, rest, rfl, -⟩
    exact short first second rest rfl

theorem isUrl_iff : isUrl text = true ↔ ∃ address : WebAddress, address.toList = text := by
  constructor
  · intro accepted
    obtain ⟨scheme, among, _, rfl⟩ := exists_scheme_of_isUrl accepted
    rw [isUrl_append among, isUrlRest_iff] at accepted
    obtain ⟨first, second, rest, rfl, starts, feed, visible⟩ := accepted
    exact ⟨⟨scheme, first, second, rest, among, starts, feed, visible⟩, rfl⟩
  · rintro ⟨address, rfl⟩
    rw [WebAddress.toList, isUrl_append address.scheme_mem, isUrlRest_iff]
    exact ⟨_, _, _, rfl, address.first_starts, address.second_ne, address.rest_visible⟩

/-! ## Blanks -/

/-- A web address whose second character after the scheme is blank. -/
def SpacedHost (text : List Char) : Prop :=
  ∃ address : WebAddress, address.toList = text ∧ isBlank address.second = true

theorem visible_of_mem_urlSchemes {scheme : List Char} (among : scheme ∈ urlSchemes) :
    ∀ c ∈ scheme, isBlank c = false := by
  rw [visible_iff]
  rcases List.mem_pair.mp among with rfl | rfl <;> decide

theorem WebAddress.isBlank_first (address : WebAddress) : isBlank address.first = false := by
  have starts := address.first_starts
  rw [isHostStart_eq] at starts
  simpa using (Bool.and_eq_true_iff.mp starts).1

/-- In a web address no other character than the second one after the scheme can be blank. -/
theorem WebAddress.visible_iff (address : WebAddress) :
    (∀ c ∈ address.toList, isBlank c = false) ↔ isBlank address.second = false := by
  rw [WebAddress.toList, List.forall_mem_append, List.forall_mem_cons, List.forall_mem_cons]
  constructor
  · rintro ⟨-, -, visible, -⟩
    exact visible
  · intro visible
    exact ⟨visible_of_mem_urlSchemes address.scheme_mem, address.isBlank_first, visible,
      address.rest_visible⟩

/-- The web addresses are the texts of their language.  They start with one of the schemes, and they
    are free of blanks unless the second character after it is blank. -/
theorem accepts_url_iff (s : String) :
    (StringFormat.url.accepts s = true ↔ s.toList ∈ urlLanguage) ∧
    (StringFormat.url.accepts s = true →
      (∃ scheme ∈ urlSchemes, scheme <+: s.toList) ∧
        ((∀ c ∈ s.toList, isBlank c = false) ↔ ¬SpacedHost s.toList)) := by
  rw [StringFormat.accepts, mem_urlLanguage_iff, isUrl_iff]
  refine ⟨Iff.rfl, ?_⟩
  rintro ⟨address, same⟩
  rw [← same]
  refine ⟨⟨address.scheme, address.scheme_mem, List.prefix_append ..⟩, ?_⟩
  constructor
  · rintro visible ⟨other, same', blank⟩
    rw [← same', other.visible_iff] at visible
    rw [visible] at blank
    cases blank
  · intro unspaced
    -- Any way to split the text into parts will do, since each would make it a spaced host.
    rw [address.visible_iff, ← Bool.not_eq_true]
    intro blank
    exact unspaced ⟨address, rfl, blank⟩

/-- A blank that is the second character after the scheme is found. -/
theorem accepts_url_iff_spaced :
    StringFormat.url.accepts "http://a b" = true ∧ SpacedHost "http://a b".toList := by
  have accepted : StringFormat.url.accepts "http://a b" = true := by decide
  have unspaced := ((accepts_url_iff "http://a b").2 accepted).2
  refine ⟨accepted, Classical.byContradiction fun elsewhere => ?_⟩
  exact absurd (visible_iff.mp (unspaced.mpr elsewhere)) (by decide)

/-- A web address with a blank in its host is accepted. -/
theorem not_visible_of_accepts_url :
    StringFormat.url.accepts "http://a b" = true ∧
      ¬∀ c ∈ "http://a b".toList, isBlank c = false := by
  rw [visible_iff]
  decide

end CallGuard
