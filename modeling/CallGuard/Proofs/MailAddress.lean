import CallGuard.Proofs.CharacterClass
import CallGuard.StringFormat

/-!
# Mail addresses

The mail addresses are the texts of a regular language: a local part, an at sign, a domain, a dot
and a top-level domain.  A domain may hold dots and letters itself, and so there may be many dots to
split at.  But the top-level domain holds no dot and no part holds an at sign: a mail address has
its parts in one way only, and the recogniser finds them without trying one dot after the other.
-/

namespace CallGuard

/-! ## The language -/

/-- The class of the letters and digits of ASCII and some further characters. -/
def alphanumOr (further : String) (c : Char) : Bool := c.isAlphanum || further.toList.contains c

/-- The language of `[a-zA-Z0-9._%+-]+@[a-zA-Z0-9.-]+\.[a-zA-Z]{2,}`. -/
def mailLanguage : Language Char :=
  atLeast 1 (alphanumOr "._%+-") *
    (charIn (· == '@') *
      (atLeast 1 (alphanumOr ".-") * (charIn (· == '.') * atLeast 2 Char.isAlpha)))

/-- A mail address in its parts. -/
@[ext]
structure MailAddress where
  localPart : List Char
  domain : List Char
  topLevel : List Char
  localPart_ne_nil : localPart ≠ []
  localPart_chars : ∀ c ∈ localPart, alphanumOr "._%+-" c = true
  domain_ne_nil : domain ≠ []
  domain_chars : ∀ c ∈ domain, alphanumOr ".-" c = true
  two_le_length_topLevel : 2 ≤ topLevel.length
  topLevel_letters : ∀ c ∈ topLevel, c.isAlpha = true

namespace MailAddress

/-- What stands after the at sign. -/
def host (address : MailAddress) : List Char := address.domain ++ '.' :: address.topLevel

/-- The parts of a mail address with an at sign and a dot between them. -/
def toList (address : MailAddress) : List Char := address.localPart ++ '@' :: address.host

end MailAddress

variable {text : List Char}

theorem mem_mailLanguage_iff :
    text ∈ mailLanguage ↔ ∃ address : MailAddress, address.toList = text := by
  simp only [mailLanguage, mem_mul_separator_mul_iff, mem_atLeast_iff]
  constructor
  · rintro ⟨localPart, ⟨some, chars⟩, _,
      ⟨domain, ⟨some', chars'⟩, topLevel, ⟨two, letters⟩, rfl⟩, rfl⟩
    exact ⟨⟨localPart, domain, topLevel, List.ne_nil_of_length_pos some, chars,
      List.ne_nil_of_length_pos some', chars', two, letters⟩, rfl⟩
  · rintro ⟨⟨localPart, domain, topLevel, some, chars, some', chars', two, letters⟩, rfl⟩
    exact ⟨localPart, ⟨List.length_pos_of_ne_nil some, chars⟩, _,
      ⟨domain, ⟨List.length_pos_of_ne_nil some', chars'⟩, topLevel, ⟨two, letters⟩, rfl⟩, rfl⟩

/-! ## The parts -/

namespace MailAddress

variable (address : MailAddress)

theorem takeWhile_toList :
    address.toList.takeWhile (alphanumOr "._%+-") = address.localPart :=
  takeWhile_run address.localPart_chars rfl

theorem dropWhile_toList :
    address.toList.dropWhile (alphanumOr "._%+-") = '@' :: address.host :=
  dropWhile_run address.localPart_chars rfl

theorem reverse_host :
    address.host.reverse = address.topLevel.reverse ++ '.' :: address.domain.reverse := by
  simp [host]

theorem reverse_letters : ∀ c ∈ address.topLevel.reverse, c.isAlpha = true := by
  intro c member
  exact address.topLevel_letters c (List.mem_reverse.mp member)

theorem takeWhile_reverse_host :
    address.host.reverse.takeWhile Char.isAlpha = address.topLevel.reverse := by
  rw [reverse_host, takeWhile_run address.reverse_letters rfl]

theorem dropWhile_reverse_host :
    address.host.reverse.dropWhile Char.isAlpha = '.' :: address.domain.reverse := by
  rw [reverse_host, dropWhile_run address.reverse_letters rfl]

/-- A text is split into the parts of a mail address in one way at most. -/
theorem toList_injective : Function.Injective toList := by
  intro one other same
  have localParts := congrArg (List.takeWhile (alphanumOr "._%+-")) same
  have hosts := congrArg (List.dropWhile (alphanumOr "._%+-")) same
  rw [takeWhile_toList, takeWhile_toList] at localParts
  rw [dropWhile_toList, dropWhile_toList, List.cons.injEq] at hosts
  -- From its end, the host is split at the first character that is no letter.
  have topLevels := congrArg (fun host => host.reverse.takeWhile Char.isAlpha) hosts.2
  have domains := congrArg (fun host => host.reverse.dropWhile Char.isAlpha) hosts.2
  simp only [takeWhile_reverse_host, List.reverse_inj] at topLevels
  simp only [dropWhile_reverse_host, List.cons.injEq, List.reverse_inj, true_and] at domains
  exact MailAddress.ext localParts domains topLevels

end MailAddress

/-! ## The recogniser -/

theorem isLocalChar_eq : isLocalChar = alphanumOr "._%+-" := by
  funext c
  rw [isLocalChar, alphanumOr, Bool.eq_iff_iff]
  simp [or_assoc]

theorem isDomainChar_eq : isDomainChar = alphanumOr ".-" := by
  funext c
  rw [isDomainChar, alphanumOr, Bool.eq_iff_iff]
  simp [or_assoc]

theorem endsInTopLevelDomain_iff : endsInTopLevelDomain text = true ↔
    ∃ domain, text.dropWhile Char.isAlpha = '.' :: domain ∧
      2 ≤ (text.takeWhile Char.isAlpha).length ∧ domain ≠ [] ∧
      ∀ c ∈ domain, alphanumOr ".-" c = true := by
  rw [endsInTopLevelDomain, isDomainChar_eq]
  split
  · next domain left => simp [left]
  · next other =>
    simp only [Bool.and_false, Bool.false_eq_true, false_iff]
    rintro ⟨domain, left, -⟩
    exact other domain left

theorem isEmail_iff_host : isEmail text = true ↔
    ∃ host, text.dropWhile (alphanumOr "._%+-") = '@' :: host ∧
      text.takeWhile (alphanumOr "._%+-") ≠ [] ∧ endsInTopLevelDomain host.reverse = true := by
  rw [isEmail, isLocalChar_eq]
  split
  · next host left => simp [left]
  · next other =>
    simp only [Bool.and_false, Bool.false_eq_true, false_iff]
    rintro ⟨host, left, -⟩
    exact other host left

theorem isEmail_iff : isEmail text = true ↔ ∃ address : MailAddress, address.toList = text := by
  rw [isEmail_iff_host]
  constructor
  · rintro ⟨host, left, some, ends⟩
    obtain ⟨domain, left', two, some', chars⟩ := endsInTopLevelDomain_iff.mp ends
    have parts : domain.reverse ++ '.' :: (host.reverse.takeWhile Char.isAlpha).reverse = host := by
      simpa using congrArg List.reverse (takeWhile_append_of_dropWhile left')
    refine ⟨⟨text.takeWhile (alphanumOr "._%+-"), domain.reverse,
      (host.reverse.takeWhile Char.isAlpha).reverse, some, ?_, ?_, ?_, ?_, ?_⟩, ?_⟩
    · exact fun c member => List.mem_takeWhile_imp member
    · exact mt List.reverse_eq_nil_iff.mp some'
    · exact fun c member => chars c (List.mem_reverse.mp member)
    · rwa [List.length_reverse]
    · exact fun c member => List.mem_takeWhile_imp (List.mem_reverse.mp member)
    · rw [MailAddress.toList, MailAddress.host, parts]
      exact takeWhile_append_of_dropWhile left
  · rintro ⟨address, rfl⟩
    refine ⟨address.host, address.dropWhile_toList, ?_, ?_⟩
    · rw [address.takeWhile_toList]
      exact address.localPart_ne_nil
    · rw [endsInTopLevelDomain_iff, address.takeWhile_reverse_host, List.length_reverse]
      refine ⟨_, address.dropWhile_reverse_host, address.two_le_length_topLevel, ?_, ?_⟩
      · exact mt List.reverse_eq_nil_iff.mp address.domain_ne_nil
      · exact fun c member => address.domain_chars c (List.mem_reverse.mp member)

/-! ## At signs and blanks -/

theorem isBlank_of_alphanumOr {further : String} {c : Char}
    (visible : further.toList.any isBlank = false) (member : alphanumOr further c = true) :
    isBlank c = false := by
  rw [alphanumOr, Bool.or_eq_true, List.contains_iff_mem] at member
  rcases member with alphanum | among
  · exact isBlank_of_isAlphanum alphanum
  · exact visible_iff.mpr visible c among

namespace MailAddress

variable (address : MailAddress)

theorem visible : ∀ c ∈ address.toList, isBlank c = false := by
  rw [toList, host, List.forall_mem_append, List.forall_mem_cons, List.forall_mem_append,
    List.forall_mem_cons]
  refine ⟨fun c member => ?_, rfl, fun c member => ?_, rfl, fun c member => ?_⟩
  · exact isBlank_of_alphanumOr (by decide) (address.localPart_chars c member)
  · exact isBlank_of_alphanumOr (by decide) (address.domain_chars c member)
  · apply isBlank_of_isAlphanum
    rw [Char.isAlphanum, address.topLevel_letters c member, Bool.true_or]

theorem count_at : address.toList.count '@' = 1 := by
  have inLocalPart : '@' ∉ address.localPart := notMem_of_run address.localPart_chars rfl
  have inDomain : '@' ∉ address.domain := notMem_of_run address.domain_chars rfl
  have inTopLevel : '@' ∉ address.topLevel := notMem_of_run address.topLevel_letters rfl
  rw [toList, host, List.count_append, List.count_cons_self, List.count_append,
    List.count_cons_of_ne (by decide), List.count_eq_zero_of_not_mem inLocalPart,
    List.count_eq_zero_of_not_mem inDomain, List.count_eq_zero_of_not_mem inTopLevel]

end MailAddress

/-- The mail addresses are the texts of their language, that is, those that are a local part, an at
    sign, a domain, a dot and a top-level domain.  A mail address has one at sign and no blanks,
    which the line breaks are as well, and can be split into these parts in one way only. -/
theorem accepts_email_iff (s : String) :
    (StringFormat.email.accepts s = true ↔ s.toList ∈ mailLanguage) ∧
    (StringFormat.email.accepts s = true ↔ ∃ address : MailAddress, address.toList = s.toList) ∧
    (StringFormat.email.accepts s = true →
      s.toList.count '@' = 1 ∧ (∀ c ∈ s.toList, isBlank c = false) ∧
        ∃! address : MailAddress, address.toList = s.toList) := by
  rw [StringFormat.accepts, mem_mailLanguage_iff, isEmail_iff]
  refine ⟨Iff.rfl, Iff.rfl, ?_⟩
  rintro ⟨address, same⟩
  rw [← same]
  refine ⟨address.count_at, address.visible, address, rfl, ?_⟩
  intro other same'
  exact MailAddress.toList_injective same'

/-- A text with several dots is split at the last one. -/
theorem accepts_email_iff_dots :
    StringFormat.email.accepts "first.last@mail.co.uk" = true ∧
      "first.last@mail.co.uk".toList.count '@' = 1 ∧
      (∀ c ∈ "first.last@mail.co.uk".toList, isBlank c = false) ∧
      ∀ address : MailAddress, address.toList = "first.last@mail.co.uk".toList →
        address.domain = "mail.co".toList := by
  have accepted : StringFormat.email.accepts "first.last@mail.co.uk" = true := by decide
  obtain ⟨atSign, visible, unique⟩ := (accepts_email_iff "first.last@mail.co.uk").2.2 accepted
  refine ⟨accepted, atSign, visible, fun address same => ?_⟩
  have parts : address = ⟨"first.last".toList, "mail.co".toList, "uk".toList,
      by decide, List.all_eq_true.mp (by decide), by decide, List.all_eq_true.mp (by decide),
      by decide, List.all_eq_true.mp (by decide)⟩ := unique.unique same rfl
  rw [parts]

example : StringFormat.email.accepts "user@example.com\n" = false := by decide

end CallGuard
