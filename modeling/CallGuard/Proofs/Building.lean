import CallGuard.Proofs.Signature
import Mathlib.Data.List.Pairwise
import Mathlib.Data.List.Infix

/-!
# Building signatures

A list of parameters is read once from left to right, and five flags and a set of names are all
that is kept of the parameters read.  Building from the list succeeds exactly if its parameters
keep the rules of order pair by pair.  Otherwise the error is about the earliest parameter that
breaks a rule after those before it, and of the rules it breaks the one that is checked first.
-/

namespace CallGuard

/-- The parameter that an error is about. -/
def SignatureError.parameter : SignatureError → String
  | duplicateParameter name | reservedName name | duplicateVariadic name
  | parameterAfterVarKeyword name | positionalAfterVarPositional name
  | positionalOnlyAfterPositionalOrKeyword name | requiredAfterDefault name => name

/-- The order in which the rules are checked. -/
def SignatureError.rank : SignatureError → Nat
  | reservedName _ => 0
  | duplicateParameter _ => 1
  | parameterAfterVarKeyword _ => 2
  | positionalAfterVarPositional _ => 3
  | positionalOnlyAfterPositionalOrKeyword _ => 4
  | requiredAfterDefault _ => 5
  | duplicateVariadic _ => 6

namespace Parameter

/-- The rules of order for a list of parameters. -/
structure InOrder (parameters : List Parameter) : Prop where
  notReserved : ∀ p ∈ parameters, p.name ≠ returnName
  distinct : (parameters.map Parameter.name).Nodup
  varKeywordLast : parameters.Pairwise fun earlier _ => earlier.kind ≠ .varKeyword
  oneVarPositional : parameters.Pairwise fun earlier later =>
    ¬ (earlier.kind = .varPositional ∧ later.kind = .varPositional)
  positionalFirst : parameters.Pairwise fun earlier later =>
    later.kind.isPositional → earlier.kind ≠ .varPositional
  positionalOnlyFirst : parameters.Pairwise fun earlier later =>
    later.kind = .positionalOnly → earlier.kind ≠ .positionalOrKeyword
  defaultsLast : parameters.Pairwise fun earlier later =>
    earlier.kind.isPositional → earlier.default.isSome → later.kind.isPositional →
      later.default.isSome

/-- The rules that a parameter breaks after others, each with its error. -/
inductive Breaks (before : List Parameter) (p : Parameter) : SignatureError → Prop
  | reserved (reserved : p.name = returnName) : Breaks before p (.reservedName p.name)
  | duplicate {q : Parameter} (member : q ∈ before) (same : q.name = p.name) :
      Breaks before p (.duplicateParameter p.name)
  | afterVarKeyword {q : Parameter} (member : q ∈ before) (kind : q.kind = .varKeyword) :
      Breaks before p (.parameterAfterVarKeyword p.name)
  | afterVarPositional {q : Parameter} (positional : p.kind.isPositional) (member : q ∈ before)
      (kind : q.kind = .varPositional) : Breaks before p (.positionalAfterVarPositional p.name)
  | secondVarPositional {q : Parameter} (variadic : p.kind = .varPositional)
      (member : q ∈ before) (kind : q.kind = .varPositional) :
      Breaks before p (.duplicateVariadic p.name)
  | notFirst {q : Parameter} (positionalOnly : p.kind = .positionalOnly) (member : q ∈ before)
      (kind : q.kind = .positionalOrKeyword) :
      Breaks before p (.positionalOnlyAfterPositionalOrKeyword p.name)
  | afterDefault {q : Parameter} (positional : p.kind.isPositional) (required : p.default = none)
      (member : q ∈ before) (positional' : q.kind.isPositional) (given : q.default.isSome) :
      Breaks before p (.requiredAfterDefault p.name)

variable {before parameters : List Parameter} {p : Parameter} {error other : SignatureError}

theorem Breaks.parameter_eq (breaks : Breaks before p error) : error.parameter = p.name := by
  cases breaks <;> rfl

/-- Parameters keep the rules exactly if none bears the reserved name and each may follow those
    before it. -/
theorem inOrder_iff : InOrder parameters ↔ (∀ p ∈ parameters, p.name ≠ returnName) ∧
    parameters.Pairwise fun earlier later => later.MayFollow earlier := by
  constructor
  · intro ordered
    refine ⟨ordered.notReserved, ?_⟩
    have names := List.pairwise_map.mp ordered.distinct
    refine (names.and (ordered.varKeywordLast.and (ordered.oneVarPositional.and
      (ordered.positionalFirst.and (ordered.positionalOnlyFirst.and ordered.defaultsLast))))).imp
      fun {earlier later} rules => ?_
    obtain ⟨name, varKeyword, varPositional, positional, positionalOnly, defaults⟩ := rules
    exact ⟨name.symm, varKeyword, positional, fun kind kind' => varPositional ⟨kind', kind⟩,
      positionalOnly, fun positional positional' given => defaults positional' given positional⟩
  · intro ordered
    obtain ⟨notReserved, follow⟩ := ordered
    exact ⟨notReserved, List.pairwise_map.mpr (follow.imp fun f => f.name.symm),
      follow.imp fun f => f.notAfterVarKeyword,
      follow.imp fun f both => f.oneVarPositional both.2 both.1,
      follow.imp fun f => f.notAfterVarPositional, follow.imp fun f => f.positionalOnlyFirst,
      follow.imp fun f positional' given positional => f.defaultsLast positional positional' given⟩

end Parameter

open Parameter

namespace Declared

variable {d : Declared} {before parameters : List Parameter} {p : Parameter}
  {error : SignatureError}

/-- What is kept of the parameters read tells which of them there were. -/
structure Records (d : Declared) (before : List Parameter) : Prop where
  names : ∀ name, name ∈ d.names ↔ ∃ q ∈ before, q.name = name
  varPositional : d.varPositional = true ↔ ∃ q ∈ before, q.kind = .varPositional
  varKeyword : d.varKeyword = true ↔ ∃ q ∈ before, q.kind = .varKeyword
  default : d.default = true ↔ ∃ q ∈ before, q.kind.isPositional ∧ q.default.isSome
  positionalOrKeyword : d.positionalOrKeyword = true ↔
    ∃ q ∈ before, q.kind = .positionalOrKeyword

theorem records_nothing : nothing.Records [] := by
  constructor <;> simp [nothing]

theorem Records.add (records : d.Records before) (p : Parameter) :
    (d.add p).Records (before ++ [p]) := by
  constructor
  · intro name
    simp [Declared.add, records.names, or_and_right, exists_or, or_comm, eq_comm]
  all_goals simp [Declared.add, records.varPositional, records.varKeyword, records.default,
    records.positionalOrKeyword, or_and_right, exists_or]

/-- The rules in the order of their checks, each with whether a parameter breaks it. -/
def charges (d : Declared) (p : Parameter) : List (Bool × SignatureError) :=
  [(p.name = returnName, .reservedName p.name),
    (d.names.contains p.name, .duplicateParameter p.name),
    (d.varKeyword, .parameterAfterVarKeyword p.name),
    (p.kind.isPositional && d.varPositional, .positionalAfterVarPositional p.name),
    (p.kind = .positionalOnly && d.positionalOrKeyword,
      .positionalOnlyAfterPositionalOrKeyword p.name),
    (p.kind.isPositional && d.default && p.default.isNone, .requiredAfterDefault p.name),
    (p.kind = .varPositional && d.varPositional, .duplicateVariadic p.name)]

/-- The error of the first charge that holds. -/
def firstCharge? : List (Bool × SignatureError) → Option SignatureError
  | [] => none
  | (holds, error) :: rest => if holds then some error else firstCharge? rest

theorem objection?_eq_firstCharge? (d : Declared) (p : Parameter) :
    d.objection? p = firstCharge? (d.charges p) := by
  cases kind : p.kind <;>
    simp [objection?, charges, firstCharge?, kind, ParameterKind.isPositional]

theorem pairwise_charges (d : Declared) (p : Parameter) :
    (d.charges p).Pairwise fun charge later => charge.2.rank < later.2.rank := by
  simp [charges, SignatureError.rank]

/-- Of charges in ascending order the first one that holds is the least that holds. -/
theorem firstCharge?_eq_some_iff {charges : List (Bool × SignatureError)}
    (ascending : charges.Pairwise fun charge later => charge.2.rank < later.2.rank) :
    firstCharge? charges = some error ↔ (true, error) ∈ charges ∧
      ∀ other, (true, other) ∈ charges → error.rank ≤ other.rank := by
  induction charges with
  | nil => simp [firstCharge?]
  | cons charge rest ih =>
    obtain ⟨holds, first⟩ := charge
    obtain ⟨below, ascends⟩ := List.pairwise_cons.mp ascending
    cases holds with
    | false => simp [firstCharge?, ih ascends]
    | true =>
      simp only [firstCharge?, if_true, Option.some.injEq]
      constructor
      · intro same
        subst same
        refine ⟨List.mem_cons_self, fun other member => ?_⟩
        rcases List.mem_cons.mp member with equal | later
        · cases equal
          exact Nat.le_refl _
        · exact Nat.le_of_lt (below _ later)
      · intro least
        obtain ⟨member, least⟩ := least
        rcases List.mem_cons.mp member with equal | later
        · cases equal
          rfl
        · exact absurd (below _ later) (Nat.not_lt.mpr (least first List.mem_cons_self))

/-- The charges that hold are the rules that are broken. -/
theorem mem_charges_iff (records : d.Records before) :
    (true, error) ∈ d.charges p ↔ Breaks before p error := by
  have flags : (true, error) ∈ d.charges p ↔
      (p.name = returnName ∧ error = .reservedName p.name) ∨
      ((∃ q ∈ before, q.name = p.name) ∧ error = .duplicateParameter p.name) ∨
      ((∃ q ∈ before, q.kind = .varKeyword) ∧ error = .parameterAfterVarKeyword p.name) ∨
      ((p.kind.isPositional ∧ ∃ q ∈ before, q.kind = .varPositional) ∧
        error = .positionalAfterVarPositional p.name) ∨
      ((p.kind = .positionalOnly ∧ ∃ q ∈ before, q.kind = .positionalOrKeyword) ∧
        error = .positionalOnlyAfterPositionalOrKeyword p.name) ∨
      (((p.kind.isPositional ∧ ∃ q ∈ before, q.kind.isPositional ∧ q.default.isSome) ∧
        p.default = none) ∧ error = .requiredAfterDefault p.name) ∨
      ((p.kind = .varPositional ∧ ∃ q ∈ before, q.kind = .varPositional) ∧
        error = .duplicateVariadic p.name) := by
    rw [← records.names, ← records.varPositional, ← records.varKeyword, ← records.default,
      ← records.positionalOrKeyword]
    simp [charges]
  rw [flags]
  constructor
  · intro charged
    rcases charged with ⟨reserved, rfl⟩ | ⟨⟨q, member, same⟩, rfl⟩ | ⟨⟨q, member, kind⟩, rfl⟩ |
      ⟨⟨positional, q, member, kind⟩, rfl⟩ | ⟨⟨positionalOnly, q, member, kind⟩, rfl⟩ |
      ⟨⟨⟨positional, q, member, positional', given⟩, required⟩, rfl⟩ |
      ⟨⟨variadic, q, member, kind⟩, rfl⟩
    · exact .reserved reserved
    · exact .duplicate member same
    · exact .afterVarKeyword member kind
    · exact .afterVarPositional positional member kind
    · exact .notFirst positionalOnly member kind
    · exact .afterDefault positional required member positional' given
    · exact .secondVarPositional variadic member kind
  · intro breaks
    cases breaks with
    | reserved reserved => simp [reserved]
    | duplicate member same => simpa using ⟨_, member, same⟩
    | afterVarKeyword member kind => simpa using ⟨_, member, kind⟩
    | afterVarPositional positional member kind => simpa [positional] using ⟨_, member, kind⟩
    | notFirst positionalOnly member kind => simpa [positionalOnly] using ⟨_, member, kind⟩
    | afterDefault positional required member positional' given =>
      simpa [positional, required] using ⟨_, member, positional', given⟩
    | secondVarPositional variadic member kind => simpa [variadic] using ⟨_, member, kind⟩

/-- The objection to a parameter is about the rule it breaks that is checked first. -/
theorem objection?_eq_some_iff (records : d.Records before) : d.objection? p = some error ↔
    Breaks before p error ∧ ∀ other, Breaks before p other → error.rank ≤ other.rank := by
  rw [objection?_eq_firstCharge?, firstCharge?_eq_some_iff (d.pairwise_charges p)]
  simp only [mem_charges_iff records]

/-- There is an objection to a parameter exactly if it breaks a rule. -/
theorem isSome_objection?_iff (records : d.Records before) :
    (d.objection? p).isSome ↔ ∃ error, Breaks before p error := by
  have holds : ∀ charges, (firstCharge? charges).isSome ↔ ∃ error, (true, error) ∈ charges := by
    intro charges
    induction charges with
    | nil => simp [firstCharge?]
    | cons charge rest ih =>
      obtain ⟨_ | _, error⟩ := charge
      · simpa [firstCharge?] using ih
      · simp [firstCharge?]
  rw [objection?_eq_firstCharge?, holds]
  simp only [mem_charges_iff records]

/-- The earliest parameter that breaks a rule after those before it is objected to. -/
theorem firstObjection?_eq_some_iff (records : d.Records before) :
    d.firstObjection? parameters = some error ↔
      ∃ passed p after, parameters = passed ++ p :: after ∧
        (∀ earlier q later, passed = earlier ++ q :: later →
          ∀ other, ¬ Breaks (before ++ earlier) q other) ∧
        Breaks (before ++ passed) p error ∧
        ∀ other, Breaks (before ++ passed) p other → error.rank ≤ other.rank := by
  induction parameters generalizing d before with
  | nil => simp [firstObjection?]
  | cons p rest ih =>
    cases found : d.objection? p with
    | some first =>
      have objection := (objection?_eq_some_iff records).mp found
      simp only [firstObjection?, found, Option.some.injEq]
      constructor
      · intro same
        subst same
        exact ⟨[], p, rest, rfl, by simp, by simpa using objection⟩
      · intro decided
        obtain ⟨passed, q, after, split, unbroken, breaks⟩ := decided
        cases passed with
        | nil =>
          cases split
          have again := (objection?_eq_some_iff records).mpr (by simpa using breaks)
          exact Option.some.inj (found.symm.trans again)
        | cons head passed =>
          cases split
          exact absurd objection.1 (by simpa using unbroken [] p passed rfl first)
    | none =>
      have unbroken : ∀ other, ¬ Breaks before p other := by
        simpa [found] using (isSome_objection?_iff records (p := p)).not
      simp only [firstObjection?, found, ih (records.add p)]
      constructor
      · intro later
        obtain ⟨passed, q, after, rfl, unbroken', breaks⟩ := later
        refine ⟨p :: passed, q, after, rfl, ?_, by simpa using breaks⟩
        intro earlier r later split other
        cases earlier with
        | nil =>
          cases split
          simpa using unbroken other
        | cons head earlier =>
          cases split
          simpa using unbroken' earlier r later rfl other
      · intro decided
        obtain ⟨passed, q, after, split, unbroken', breaks⟩ := decided
        cases passed with
        | nil =>
          cases split
          exact absurd breaks.1 (by simpa using unbroken error)
        | cons head passed =>
          cases split
          refine ⟨passed, q, after, rfl, fun earlier r later split other => ?_,
            by simpa using breaks⟩
          simpa using unbroken' (p :: earlier) r later (by rw [split]; rfl) other

end Declared

namespace Signature

variable {parameters : List Parameter} {returns : Option TypeExpr} {sig : Signature}
  {error : SignatureError}

theorem build_eq_ok_iff : build parameters returns = .ok sig ↔
    sig.parameters = parameters ∧ sig.returns = returns := by
  obtain ⟨parameters', returns', orderly⟩ := sig
  unfold build
  split
  next refused =>
    simp only [reduceCtorEq, false_iff]
    rintro ⟨rfl, -⟩
    simp [refused] at orderly
  next => simp [eq_comm]

theorem build_eq_error_iff : build parameters returns = .error error ↔
    Declared.nothing.firstObjection? parameters = some error := by
  unfold build
  split <;> simp_all

theorem exists_build_iff : (∃ sig, build parameters returns = .ok sig) ↔ InOrder parameters := by
  rw [inOrder_iff, ← Declared.firstObjection?_nothing_eq_none_iff]
  constructor
  · intro built
    obtain ⟨sig, built⟩ := built
    rw [← (build_eq_ok_iff.mp built).1]
    exact sig.orderly
  · intro orderly
    exact ⟨⟨parameters, returns, orderly⟩, build_eq_ok_iff.mpr ⟨rfl, rfl⟩⟩

/-- At most one member of a list has a property that no two of its members share. -/
theorem countP_le_one {α : Type} {property : α → Bool} {list : List α}
    (single : list.Pairwise fun first second => property first = true → ¬ property second = true) :
    list.countP property ≤ 1 := by
  induction list with
  | nil => simp
  | cons first rest ih =>
    obtain ⟨alone, single⟩ := List.pairwise_cons.mp single
    cases h : property first with
    | false => simpa [h] using ih single
    | true =>
      have none : rest.countP property = 0 :=
        List.countP_eq_zero.mpr fun second member => alone second member h
      simp [h, none]

/-- What a property keeps of a list is a prefix if nothing that lacks it comes before. -/
theorem filter_isPrefix {α : Type} {property : α → Bool} {list : List α}
    (falling : list.Pairwise fun first second => property second = true → property first = true) :
    list.filter property <+: list := by
  induction list with
  | nil => simp
  | cons first rest ih =>
    obtain ⟨before, falling⟩ := List.pairwise_cons.mp falling
    cases h : property first with
    | true => simpa [h] using ih falling
    | false =>
      have none : rest.filter property = [] := List.filter_eq_nil_iff.mpr fun second member kept =>
        by simp [before second member kept] at h
      simp [h, none]

theorem countP_varPositional_le_one (sig : Signature) :
    (sig.parameters.countP fun p => p.kind = .varPositional) ≤ 1 :=
  countP_le_one (sig.pairwise_mayFollow.imp fun follow => by
    simpa using fun first second => follow.oneVarPositional second first)

theorem countP_varKeyword_le_one (sig : Signature) :
    (sig.parameters.countP fun p => p.kind = .varKeyword) ≤ 1 :=
  countP_le_one (sig.pairwise_mayFollow.imp fun follow => by
    simpa using fun first _ => follow.notAfterVarKeyword first)

/-- The positional parameters that must be supplied have the first slots. -/
theorem filter_isRequired_isPrefix (sig : Signature) :
    sig.positional.filter Parameter.isRequired <+: sig.positional := by
  apply filter_isPrefix
  rw [positional, List.pairwise_filter]
  refine sig.pairwise_mayFollow.imp fun {earlier later} follow positional positional' => ?_
  simp only [Parameter.isRequired, Bool.and_eq_true, Option.isNone_iff_eq_none]
  intro required
  refine ⟨?_, by cases kind : earlier.kind <;> simp_all [ParameterKind.isPositional,
    ParameterKind.isVariadic]⟩
  by_contra given
  have given' := follow.defaultsLast positional' positional (Option.isSome_iff_ne_none.mpr given)
  simp [required.1] at given'

/-- Building is exact.  It succeeds exactly if the parameters keep the rules of order, and then
    leaves them as they are: at most one is variadic of each kind, and the positional parameters
    that must be supplied have the first slots.  It fails for the earliest parameter that breaks a
    rule with respect to those before it, and for the first rule that this parameter breaks. -/
theorem build_exact (parameters : List Parameter) (returns : Option TypeExpr) :
    ((∃ sig, build parameters returns = .ok sig) ↔ InOrder parameters) ∧
    (∀ sig, build parameters returns = .ok sig →
      sig.parameters = parameters ∧ sig.returns = returns ∧
      (parameters.countP fun p => p.kind = .varPositional) ≤ 1 ∧
      (parameters.countP fun p => p.kind = .varKeyword) ≤ 1 ∧
      sig.positional.filter Parameter.isRequired <+: sig.positional) ∧
    ∀ error, build parameters returns = .error error ↔
      ∃ before p after, parameters = before ++ p :: after ∧
        (∀ earlier q later, before = earlier ++ q :: later →
          ∀ other, ¬ Breaks earlier q other) ∧
        error.parameter = p.name ∧ Breaks before p error ∧
        ∀ other, Breaks before p other → error.rank ≤ other.rank := by
  refine ⟨exists_build_iff, fun sig built => ?_, fun error => ?_⟩
  · obtain ⟨rfl, rfl⟩ := build_eq_ok_iff.mp built
    exact ⟨rfl, rfl, sig.countP_varPositional_le_one, sig.countP_varKeyword_le_one,
      sig.filter_isRequired_isPrefix⟩
  · rw [build_eq_error_iff, Declared.firstObjection?_eq_some_iff Declared.records_nothing]
    simp only [List.nil_append]
    constructor
    · intro decided
      obtain ⟨before, p, after, split, unbroken, breaks, least⟩ := decided
      exact ⟨before, p, after, split, unbroken, breaks.parameter_eq, breaks, least⟩
    · intro decided
      obtain ⟨before, p, after, split, unbroken, -, breaks, least⟩ := decided
      exact ⟨before, p, after, split, unbroken, breaks, least⟩

/-- A required positional-only parameter after one with a default breaks two rules, of which the
    order of kinds is checked first. -/
example : build [⟨"a", .positionalOrKeyword, none, some .null⟩, ⟨"b", .positionalOnly, none, none⟩]
    none = .error (.positionalOnlyAfterPositionalOrKeyword "b") := by rfl

end Signature

end CallGuard
