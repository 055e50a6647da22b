import CallGuard.Proofs.Entries
import CallGuard.Signature
import Mathlib.Data.List.Pairwise

/-!
# Order in signatures

Reading parameters from left to right raises no objection exactly if no parameter bears the
reserved name and every parameter may follow each one before it.  From this the facts about a
signature are derived: names are distinct, there is at most one variadic parameter of each
kind, and a positional slot is the place of one name.
-/

namespace CallGuard

/-- Whether a parameter may come anywhere after another. -/
structure Parameter.MayFollow (later earlier : Parameter) : Prop where
  name : later.name ≠ earlier.name
  notAfterVarKeyword : earlier.kind ≠ .varKeyword
  notAfterVarPositional : later.kind.isPositional → earlier.kind ≠ .varPositional
  oneVarPositional : later.kind = .varPositional → earlier.kind ≠ .varPositional
  positionalOnlyFirst : later.kind = .positionalOnly → earlier.kind ≠ .positionalOrKeyword
  defaultsLast : later.kind.isPositional → earlier.kind.isPositional →
    earlier.default.isSome → later.default.isSome

namespace Declared

/-- What a parameter needs to come next, one condition for each objection. -/
structure Accepts (d : Declared) (p : Parameter) : Prop where
  notReserved : p.name ≠ returnName
  fresh : p.name ∉ d.names
  beforeVarKeyword : d.varKeyword = false
  beforeVarPositional : p.kind.isPositional → d.varPositional = false
  oneVarPositional : p.kind = .varPositional → d.varPositional = false
  positionalOnlyFirst : p.kind = .positionalOnly → d.positionalOrKeyword = false
  defaultsLast : p.kind.isPositional → d.default → p.default.isSome

/-- A chain of objections raises none exactly if the first is not raised and none of the others. -/
theorem ite_some_eq_none_iff {α : Type} {c : Prop} [Decidable c] {a : α} {rest : Option α} :
    (if c then some a else rest) = none ↔ ¬ c ∧ rest = none := by
  split <;> simp_all

/-- A parameter raises no objection exactly if it is accepted next. -/
theorem objection?_eq_none_iff {d : Declared} {p : Parameter} :
    d.objection? p = none ↔ d.Accepts p := by
  have chain : d.objection? p = none ↔ (p.name ≠ returnName ∧ p.name ∉ d.names ∧
      d.varKeyword = false) ∧ (p.kind.isPositional → d.varPositional = false) ∧
      (p.kind = .varPositional → d.varPositional = false) ∧
      (p.kind = .positionalOnly → d.positionalOrKeyword = false) ∧
      (p.kind.isPositional → d.default → p.default.isSome) := by
    unfold objection?
    cases kind : p.kind <;>
      simp [ite_some_eq_none_iff, ParameterKind.isPositional, Option.isSome_iff_ne_none,
        and_assoc]
  rw [chain]
  constructor
  · intro conditions
    rcases conditions with ⟨⟨notReserved, fresh, closed⟩, positional, single, first, last⟩
    exact ⟨notReserved, fresh, closed, positional, single, first, last⟩
  · intro accepted
    exact ⟨⟨accepted.notReserved, accepted.fresh, accepted.beforeVarKeyword⟩,
      accepted.beforeVarPositional, accepted.oneVarPositional, accepted.positionalOnlyFirst,
      accepted.defaultsLast⟩

theorem accepts_add_iff {d : Declared} {earlier later : Parameter} :
    (d.add earlier).Accepts later ↔ d.Accepts later ∧ later.MayFollow earlier := by
  constructor
  · intro accepted
    rcases accepted with ⟨notReserved, fresh, closed, positional, single, first, last⟩
    simp only [add, List.mem_cons, not_or, Bool.or_eq_false_iff, decide_eq_false_iff_not,
      Bool.or_eq_true, Bool.and_eq_true] at fresh closed positional single first last
    exact ⟨⟨notReserved, fresh.2, closed.1, fun h => (positional h).1, fun h => (single h).1,
        fun h => (first h).1, fun h hd => last h (.inl hd)⟩,
      ⟨fresh.1, closed.2, fun h => (positional h).2, fun h => (single h).2,
        fun h => (first h).2, fun h he hd => last h (.inr ⟨he, hd⟩)⟩⟩
  · intro both
    rcases both with ⟨before, follow⟩
    refine ⟨before.notReserved, ?_, ?_, fun h => ?_, fun h => ?_, fun h => ?_, fun h => ?_⟩
    · simp [add, follow.name, before.fresh]
    · simp [add, before.beforeVarKeyword, follow.notAfterVarKeyword]
    · simp [add, before.beforeVarPositional h, follow.notAfterVarPositional h]
    · simp [add, before.oneVarPositional h, follow.oneVarPositional h]
    · simp [add, before.positionalOnlyFirst h, follow.positionalOnlyFirst h]
    · simp only [add, Bool.or_eq_true, Bool.and_eq_true]
      intro given
      rcases given with hd | ⟨he, hd⟩
      · exact before.defaultsLast h hd
      · exact follow.defaultsLast h he hd

theorem accepts_nothing_iff {p : Parameter} : nothing.Accepts p ↔ p.name ≠ returnName :=
  ⟨fun accepted => accepted.notReserved,
    fun notReserved => ⟨notReserved, by simp [nothing], rfl, fun _ => rfl, fun _ => rfl,
      fun _ => rfl, fun _ h => by simp [nothing] at h⟩⟩

/-- No objection is raised exactly if each parameter is accepted at the start and may follow
    each one before it. -/
theorem firstObjection?_eq_none_iff {d : Declared} {ps : List Parameter} :
    d.firstObjection? ps = none ↔
      (∀ p ∈ ps, d.Accepts p) ∧ ps.Pairwise fun earlier later => later.MayFollow earlier := by
  induction ps generalizing d with
  | nil => simp [firstObjection?]
  | cons p rest ih =>
    cases h : d.objection? p with
    | some error =>
      have refused : ¬ d.Accepts p := by simp [← objection?_eq_none_iff, h]
      simp [firstObjection?, h, refused]
    | none =>
      have accepted := objection?_eq_none_iff.mp h
      simp only [firstObjection?, h, ih, accepts_add_iff, List.forall_mem_cons,
        List.pairwise_cons, accepted, true_and]
      constructor
      · intro both
        rcases both with ⟨each, ordered⟩
        exact ⟨fun q member => (each q member).1, fun q member => (each q member).2, ordered⟩
      · intro both
        rcases both with ⟨each, follow, ordered⟩
        exact ⟨fun q member => ⟨each q member, follow q member⟩, ordered⟩

/-- Parameters are in order exactly if none bears the reserved name and each may follow those
    before it. -/
theorem firstObjection?_nothing_eq_none_iff {ps : List Parameter} :
    nothing.firstObjection? ps = none ↔ (∀ p ∈ ps, p.name ≠ returnName) ∧
      ps.Pairwise fun earlier later => later.MayFollow earlier := by
  simp only [firstObjection?_eq_none_iff, accepts_nothing_iff]

end Declared

namespace Signature

variable {sig : Signature}

/-- Every parameter of a signature may follow those before it. -/
theorem pairwise_mayFollow (sig : Signature) :
    sig.parameters.Pairwise fun earlier later => later.MayFollow earlier :=
  (Declared.firstObjection?_nothing_eq_none_iff.mp sig.orderly).2

theorem nodup_names (sig : Signature) : (sig.parameters.map Parameter.name).Nodup :=
  List.pairwise_map.mpr (sig.pairwise_mayFollow.imp fun follow => follow.name.symm)

/-- Of two different parameters one may follow the other. -/
theorem mayFollow_or {p q : Parameter} (first : p ∈ sig.parameters)
    (second : q ∈ sig.parameters) : p = q ∨ p.MayFollow q ∨ q.MayFollow p := by
  have symmetric : Std.Symm fun a b : Parameter => a.MayFollow b ∨ b.MayFollow a :=
    ⟨fun _ _ => Or.symm⟩
  have either := sig.pairwise_mayFollow.imp fun {a b} follow =>
    (Or.inr follow : a.MayFollow b ∨ b.MayFollow a)
  exact or_iff_not_imp_left.mpr fun different => either.forall first second different

theorem eq_of_name_eq {p q : Parameter} (first : p ∈ sig.parameters)
    (second : q ∈ sig.parameters) (same : p.name = q.name) : p = q := by
  rcases mayFollow_or first second with equal | follow | follow
  · exact equal
  · exact absurd same follow.name
  · exact absurd same.symm follow.name

theorem eq_of_varPositional {p q : Parameter} (first : p ∈ sig.parameters)
    (second : q ∈ sig.parameters) (hp : p.kind = .varPositional) (hq : q.kind = .varPositional) :
    p = q := by
  rcases mayFollow_or first second with equal | follow | follow
  · exact equal
  · exact absurd hq (follow.oneVarPositional hp)
  · exact absurd hp (follow.oneVarPositional hq)

theorem eq_of_varKeyword {p q : Parameter} (first : p ∈ sig.parameters)
    (second : q ∈ sig.parameters) (hp : p.kind = .varKeyword) (hq : q.kind = .varKeyword) :
    p = q := by
  rcases mayFollow_or first second with equal | follow | follow
  · exact equal
  · exact absurd hq follow.notAfterVarKeyword
  · exact absurd hp follow.notAfterVarKeyword

/-! ## Lookups -/

theorem parameter?_eq_some_iff {name : String} {p : Parameter} :
    sig.parameter? name = some p ↔ p ∈ sig.parameters ∧ p.name = name := by
  constructor
  · intro found
    exact ⟨List.mem_of_find?_eq_some found, by simpa using List.find?_some found⟩
  · intro found
    rcases found with ⟨member, rfl⟩
    have found : (sig.parameter? p.name).isSome := by
      rw [parameter?, List.find?_isSome]
      exact ⟨p, member, by simp⟩
    obtain ⟨q, hq⟩ := Option.isSome_iff_exists.mp found
    have name : q.name = p.name := by simpa using List.find?_some hq
    rw [hq, eq_of_name_eq (List.mem_of_find?_eq_some hq) member name]

theorem parameter?_of_mem {p : Parameter} (member : p ∈ sig.parameters) :
    sig.parameter? p.name = some p := parameter?_eq_some_iff.mpr ⟨member, rfl⟩

theorem isSome_varPositional?_iff :
    sig.varPositional?.isSome ↔ ∃ p ∈ sig.parameters, p.kind = .varPositional := by
  simp [varPositional?]

theorem isSome_varKeyword?_iff :
    sig.varKeyword?.isSome ↔ ∃ p ∈ sig.parameters, p.kind = .varKeyword := by
  simp [varKeyword?]

theorem mem_positional_iff {p : Parameter} :
    p ∈ sig.positional ↔ p ∈ sig.parameters ∧ p.kind.isPositional := by simp [positional]

theorem nodup_positional (sig : Signature) : (sig.positional.map Parameter.name).Nodup :=
  sig.nodup_names.sublist (List.filter_sublist.map _)

/-- The slot of a name is the place of the parameter of that name. -/
theorem position?_eq_some_iff {name : String} {slot : Nat} :
    sig.position? name = some slot ↔ ∃ p, sig.positional[slot]? = some p ∧ p.name = name := by
  rw [position?, List.findIdx?_eq_some_iff_getElem]
  constructor
  · intro found
    rcases found with ⟨bound, same, -⟩
    exact ⟨_, List.getElem?_eq_getElem bound, by simpa using same⟩
  · intro found
    rcases found with ⟨p, found, same⟩
    obtain ⟨bound, rfl⟩ := List.getElem?_eq_some_iff.mp found
    refine ⟨bound, by simpa using same, fun earlier before => ?_⟩
    have different := List.pairwise_iff_getElem.mp sig.nodup_positional earlier slot
      (by simp; omega) (by simpa using bound) before
    simp only [List.getElem_map] at different
    simpa [same] using different

theorem position?_lt {name : String} {slot : Nat} (h : sig.position? name = some slot) :
    slot < sig.positionalCount := by
  obtain ⟨p, found, -⟩ := position?_eq_some_iff.mp h
  exact (List.getElem?_eq_some_iff.mp found).1

theorem exists_position? {p : Parameter} (member : p ∈ sig.parameters)
    (positional : p.kind.isPositional) : ∃ slot, sig.position? p.name = some slot := by
  obtain ⟨slot, bound, found⟩ := List.getElem_of_mem (mem_positional_iff.mpr ⟨member, positional⟩)
  exact ⟨slot, position?_eq_some_iff.mpr ⟨p, List.getElem?_eq_some_iff.mpr ⟨bound, found⟩, rfl⟩⟩

/-- Different names have different slots. -/
theorem position?_injective {name other : String} {slot : Nat}
    (first : sig.position? name = some slot) (second : sig.position? other = some slot) :
    name = other := by
  obtain ⟨p, hp, rfl⟩ := position?_eq_some_iff.mp first
  obtain ⟨q, hq, rfl⟩ := position?_eq_some_iff.mp second
  rw [hp] at hq
  cases hq
  rfl

end Signature

end CallGuard
