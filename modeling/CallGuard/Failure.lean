/-!
# Failures

A failure of code outside the library, in a validator or in a guarded function: its message,
and what was said about it on the way out.
-/

namespace CallGuard

/-- A message with the contexts added to it, first added first. -/
structure Failure where
  message : String
  contexts : List String
  deriving DecidableEq

namespace Failure

/-- A failure without contexts. -/
def ofMessage (message : String) : Failure := ⟨message, []⟩

/-- The failure with one more context around it. -/
def withContext (failure : Failure) (context : String) : Failure :=
  ⟨failure.message, failure.contexts ++ [context]⟩

/-- The outermost context, or the message if there is none. -/
def text (failure : Failure) : String := failure.contexts.getLast?.getD failure.message

end Failure

end CallGuard
