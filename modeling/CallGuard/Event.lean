import CallGuard.CallError
import CallGuard.Rewriting

/-!
# Log events

What a guarded call reports while it runs.  An event has a level and fields of text, sorted
by name.
-/

namespace CallGuard

/-- Something that happened during a guarded call. -/
inductive Event where
  | validatingArguments (fields : List String) (validator : String)
  | replacingArguments (names : List String)
  | validatingResult (type : TypeExpr) (validator : String)
  | replacingResult
  | validationFailed (stage : Stage) (kind : String) (validator : String)
  | ignoringReplacement (parameter : String) (reason : IgnoreReason)

namespace Event

/-- The level of an event. -/
def level : Event → String
  | validatingArguments _ _ => "DEBUG"
  | replacingArguments _ => "TRACE"
  | validatingResult _ _ => "DEBUG"
  | replacingResult => "TRACE"
  | validationFailed _ _ _ => "DEBUG"
  | ignoringReplacement _ _ => "WARN"

/-- The text of a list of names. -/
def namesText (names : List String) : String :=
  "[" ++ ", ".intercalate (names.map quoteReadable) ++ "]"

/-- The fields of an event. -/
def fields : Event → Entries String
  | validatingArguments fields validator =>
    [("fields", namesText fields), ("message", "Validating arguments"), ("validator", validator)]
  | replacingArguments names =>
    [("message", "Replacing arguments"), ("replaced", namesText names)]
  | validatingResult type validator =>
    [("annotation", type.text), ("message", "Validating result"), ("validator", validator)]
  | replacingResult => [("message", "Replacing result")]
  | validationFailed stage kind validator =>
    [("context", stage.text), ("kind", kind), ("message", "Validation failed"),
      ("validator", validator)]
  | ignoringReplacement parameter reason =>
    [("message", "Ignoring replacement"), ("parameter", parameter), ("reason", reason.text)]

end Event

end CallGuard
