import CallGuard.Proofs.Entries
import CallGuard.Validation.Verdict

/-!
# Verdicts side by side

A combined verdict has a normal form exactly if its parts have, and a part without a normal
form leaves an issue or a fault.
-/

namespace CallGuard

namespace Verdict

variable {α β γ : Type}

@[simp] theorem normal?_pass (a : α) : (pass a).normal? = some a := rfl
@[simp] theorem normal?_reject (path : Path) (reason : IssueReason) :
    (reject path reason : Verdict α).normal? = none := rfl
@[simp] theorem normal?_broken (fault : SchemaFault) :
    (broken fault : Verdict α).normal? = none := rfl
@[simp] theorem normal?_map (f : α → β) (verdict : Verdict α) :
    (verdict.map f).normal? = verdict.normal?.map f := rfl

@[simp] theorem fault?_pass (a : α) : (pass a).fault? = none := rfl
@[simp] theorem fault?_reject (path : Path) (reason : IssueReason) :
    (reject path reason : Verdict α).fault? = none := rfl
@[simp] theorem fault?_broken (fault : SchemaFault) :
    (broken fault : Verdict α).fault? = some fault := rfl
@[simp] theorem fault?_map (f : α → β) (verdict : Verdict α) :
    (verdict.map f).fault? = verdict.fault? := rfl
@[simp] theorem fault?_both (f : α → β → γ) (first : Verdict α) (second : Verdict β) :
    (both f first second).fault? = second.fault?.or first.fault? := rfl

/-- Two verdicts together have a normal form exactly if each has one. -/
theorem normal?_both_eq_some_iff {f : α → β → γ} {first : Verdict α} {second : Verdict β}
    {c : γ} : (both f first second).normal? = some c ↔
      ∃ a b, first.normal? = some a ∧ second.normal? = some b ∧ f a b = c := by
  cases ha : first.normal? <;> cases hb : second.normal? <;> simp [both, ha, hb]

/-- A list has a normal form exactly if its items have: the list of theirs. -/
theorem normal?_ofItems_eq_some_iff {check : Value → Path → Verdict α} {normal? : Value → Option α}
    (agree : ∀ value path, (check value path).normal? = normal? value) {path : Path} {i : Nat}
    {items : List Value} {normals : List α} :
    (ofItems check path i items).normal? = some normals ↔
      List.Forall₂ (fun item normal => normal? item = some normal) items normals := by
  induction items generalizing i normals with
  | nil => simp [ofItems, eq_comm]
  | cons item rest ih =>
    simp only [ofItems, normal?_both_eq_some_iff, agree, ih, List.forall₂_cons_left_iff]
    constructor
    · intro found
      rcases found with ⟨normal, others, head, tail, rfl⟩
      exact ⟨normal, others, head, tail, rfl⟩
    · intro found
      rcases found with ⟨normal, others, head, tail, rfl⟩
      exact ⟨normal, others, head, tail, rfl⟩

/-- A mapping has a normal form exactly if its values have: the mapping of theirs. -/
theorem normal?_ofEntries_eq_some_iff {check : Value → Path → Verdict α}
    {normal? : Value → Option α}
    (agree : ∀ value path, (check value path).normal? = normal? value) {path : Path}
    {entries : Entries Value} {normals : Entries α} :
    (ofEntries check path entries).normal? = some normals ↔
      Entries.Aligned (fun value normal => normal? value = some normal) entries normals := by
  induction entries generalizing normals with
  | nil => simp [ofEntries, Entries.Aligned, eq_comm]
  | cons entry rest ih =>
    obtain ⟨name, value⟩ := entry
    simp only [ofEntries, normal?_both_eq_some_iff, agree, ih, Entries.Aligned,
      List.forall₂_cons_left_iff]
    constructor
    · intro found
      rcases found with ⟨normal, others, head, tail, rfl⟩
      exact ⟨(name, normal), others, ⟨rfl, head⟩, tail, rfl⟩
    · intro found
      rcases found with ⟨⟨_, normal⟩, others, ⟨rfl, head⟩, tail, rfl⟩
      exact ⟨normal, others, head, tail, rfl⟩

theorem fault?_ofItems {check : Value → Path → Verdict α}
    (sound : ∀ value path, (check value path).fault? = none) (path : Path) (i : Nat)
    (items : List Value) : (ofItems check path i items).fault? = none := by
  induction items generalizing i with
  | nil => rfl
  | cons item rest ih => simp [ofItems, ih, sound]

theorem fault?_ofEntries {check : Value → Path → Verdict α}
    (sound : ∀ value path, (check value path).fault? = none) (path : Path)
    (entries : Entries Value) : (ofEntries check path entries).fault? = none := by
  induction entries with
  | nil => rfl
  | cons entry rest ih => simp [ofEntries, ih, sound]

/-! ## Checks at every position -/

/-- A check whose outcome does not depend on the position, and which has a normal form exactly
    if it reports neither an issue nor a fault. -/
structure Uniform (verdict : Path → Verdict α) : Prop where
  closed : ∀ path, (verdict path).normal?.isSome ↔
    (verdict path).issues = [] ∧ (verdict path).fault? = none
  normal? : ∀ path path', (verdict path).normal? = (verdict path').normal?
  fault? : ∀ path path', (verdict path).fault? = none ↔ (verdict path').fault? = none

namespace Uniform

theorem pass (a : α) : Uniform fun _ => Verdict.pass a :=
  ⟨fun _ => by simp [Verdict.pass], fun _ _ => rfl, fun _ _ => Iff.rfl⟩

theorem reject (reason : IssueReason) :
    Uniform fun path => (Verdict.reject path reason : Verdict α) :=
  ⟨fun _ => by simp [Verdict.reject], fun _ _ => rfl, fun _ _ => Iff.rfl⟩

theorem broken (fault : Path → SchemaFault) :
    Uniform fun path => (Verdict.broken (fault path) : Verdict α) :=
  ⟨fun _ => by simp [Verdict.broken], fun _ _ => rfl, fun _ _ => by simp⟩

theorem comp {verdict : Path → Verdict α} (uniform : Uniform verdict) (step : Path → Path) :
    Uniform fun path => verdict (step path) :=
  ⟨fun _ => uniform.closed _, fun _ _ => uniform.normal? _ _, fun _ _ => uniform.fault? _ _⟩

theorem map {verdict : Path → Verdict α} (uniform : Uniform verdict) (f : α → β) :
    Uniform fun path => (verdict path).map f :=
  ⟨fun path => by simpa [Verdict.map] using uniform.closed path,
    fun path path' => by simp [uniform.normal? path path'],
    fun path path' => uniform.fault? path path'⟩

theorem both {first : Path → Verdict α} {second : Path → Verdict β} (uniform : Uniform first)
    (uniform' : Uniform second) (f : α → β → γ) :
    Uniform fun path => Verdict.both f (first path) (second path) where
  closed path := by
    have here := uniform.closed path
    have there := uniform'.closed path
    cases ha : (first path).normal? <;> cases hb : (second path).normal? <;>
      simp_all [Verdict.both]
  normal? path path' := by
    simp [Verdict.both, uniform.normal? path path', uniform'.normal? path path']
  fault? path path' := by simp [uniform.fault? path path', uniform'.fault? path path']

theorem ofItems {check : Value → Path → Verdict α} (uniform : ∀ value, Uniform (check value))
    (i : Nat) (items : List Value) :
    Uniform fun path => Verdict.ofItems check path i items := by
  induction items generalizing i with
  | nil => exact pass []
  | cons item rest ih =>
    exact ((uniform item).comp fun path => path.index i).both (ih (i + 1)) List.cons

theorem ofEntries {check : Value → Path → Verdict α} (uniform : ∀ value, Uniform (check value))
    (entries : Entries Value) : Uniform fun path => Verdict.ofEntries check path entries := by
  induction entries with
  | nil => exact pass []
  | cons entry rest ih =>
    exact ((uniform entry.2).comp fun path => path.key entry.1).both ih _

end Uniform

end Verdict

namespace Attempt

/-- Attempts that match the same value, both meet a fault, or are both refused. -/
def Agrees : Attempt → Attempt → Prop
  | matched normal, matched normal' => normal = normal'
  | broken _, broken _ => True
  | refused, refused => True
  | _, _ => False

theorem Agrees.orElse {first first' second second' : Attempt} (agrees : first.Agrees first')
    (agrees' : second.Agrees second') :
    (first.orElse second).Agrees (first'.orElse second') := by
  cases first <;> cases first' <;> simp_all [Agrees, Attempt.orElse]

/-- Attempts that agree at all positions make a uniform verdict. -/
theorem uniform_verdict {attempt : Path → Attempt}
    (agrees : ∀ path path', (attempt path).Agrees (attempt path')) (reason : IssueReason) :
    Verdict.Uniform fun path => (attempt path).verdict path reason where
  closed path := by
    cases h : attempt path <;> simp [Attempt.verdict, Verdict.pass, Verdict.reject, Verdict.broken]
  normal? path path' := by
    have same := agrees path path'
    cases h : attempt path <;> cases h' : attempt path' <;> simp_all [Agrees, Attempt.verdict]
  fault? path path' := by
    have same := agrees path path'
    cases h : attempt path <;> cases h' : attempt path' <;> simp_all [Agrees, Attempt.verdict]

/-- The verdict of an attempt has a normal form exactly if the attempt matches it. -/
theorem normal?_verdict_eq_some_iff {attempt : Attempt} {path : Path} {reason : IssueReason}
    {normal : Value} :
    (attempt.verdict path reason).normal? = some normal ↔ attempt = matched normal := by
  cases attempt <;> simp [Attempt.verdict]

/-- The attempt that matches a normal form, where there is one. -/
def ofNormal? : Option Value → Attempt
  | some normal => matched normal
  | none => refused

@[simp] theorem normal?_verdict_ofNormal? (path : Path) (reason : IssueReason)
    (normal? : Option Value) : ((ofNormal? normal?).verdict path reason).normal? = normal? := by
  cases normal? <;> rfl

@[simp] theorem fault?_verdict_ofNormal? (path : Path) (reason : IssueReason)
    (normal? : Option Value) : ((ofNormal? normal?).verdict path reason).fault? = none := by
  cases normal? <;> rfl

@[simp] theorem orElse_ofNormal? (first second : Option Value) :
    (ofNormal? first).orElse (ofNormal? second) = ofNormal? (first.or second) := by
  cases first <;> rfl

end Attempt

end CallGuard
