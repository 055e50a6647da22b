import CallGuard.Validation.Issue

/-!
# Verdicts

What checking comes to: a normal form if everything conforms, the issues in the order met,
and the last fault met in a type.  Verdicts combine without stopping at the first
failure, so a report names every position that fails.
-/

namespace CallGuard

/-- The outcome of a check. -/
structure Verdict (α : Type) where
  normal? : Option α
  issues : List Issue
  fault? : Option SchemaFault

namespace Verdict

variable {α β γ : Type}

/-- The check succeeds with a normal form. -/
def pass (normal : α) : Verdict α := ⟨some normal, [], none⟩

/-- The check fails at a position. -/
def reject (path : Path) (reason : IssueReason) : Verdict α := ⟨none, [⟨path, reason⟩], none⟩

/-- The check meets a fault in the type. -/
def broken (fault : SchemaFault) : Verdict α := ⟨none, [], some fault⟩

/-- The same verdict with the normal form changed. -/
def map (f : α → β) (verdict : Verdict α) : Verdict β :=
  ⟨verdict.normal?.map f, verdict.issues, verdict.fault?⟩

/-- Two verdicts in order: both must succeed, issues add up, the later fault stands. -/
def both (f : α → β → γ) (first : Verdict α) (second : Verdict β) : Verdict γ where
  normal? := match first.normal?, second.normal? with
    | some a, some b => some (f a b)
    | _, _ => none
  issues := first.issues ++ second.issues
  fault? := second.fault?.or first.fault?

/-- Checks the items of a list from an index on. -/
def ofItems (check : Value → Path → Verdict α) (path : Path) : Nat → List Value → Verdict (List α)
  | _, [] => pass []
  | i, item :: rest =>
    both List.cons (check item (path.index i)) (ofItems check path (i + 1) rest)

/-- Checks the values of a mapping, keeping their names. -/
def ofEntries (check : Value → Path → Verdict α) (path : Path) :
    Entries Value → Verdict (Entries α)
  | [] => pass []
  | (name, value) :: rest =>
    both (fun head tail => (name, head) :: tail) (check value (path.key name))
      (ofEntries check path rest)

end Verdict

/-- What trying the variants of a union came to. -/
inductive Attempt where
  | matched (normal : Value)
  | broken (fault : SchemaFault)
  | refused

/-- The verdict on a union: where every variant refused, `reason` at `path`. -/
def Attempt.verdict (path : Path) (reason : IssueReason) : Attempt → Verdict Value
  | matched normal => .pass normal
  | broken fault => .broken fault
  | refused => .reject path reason

/-- The second attempt where the first is refused. -/
def Attempt.orElse : Attempt → Attempt → Attempt
  | refused, second => second
  | first, _ => first

end CallGuard
