import CallGuard.Binding
import CallGuard.Failure

/-!
# Errors of guarded calls

The ways in which a guarded call fails, each with a code and a message.
-/

namespace CallGuard

/-- Which stage of a call is validated. -/
inductive Stage where
  | arguments
  | result
  deriving DecidableEq

/-- The name of a stage. -/
def Stage.text : Stage → String
  | arguments => "arguments"
  | result => "result"

/-- Why a guarded call fails. -/
inductive CallError where
  /-- The arguments do not fit the parameters. -/
  | binding (error : BindError)
  /-- Arguments or result failed validation, with the message of the failure. -/
  | validation (stage : Stage) (message : String)
  /-- There is no signature to call. -/
  | signature (error : SignatureError)
  /-- The function itself failed. -/
  | invocation (failure : Failure)

namespace CallError

/-- The code of an error. -/
def code : CallError → String
  | binding _ => "BINDING_ERROR"
  | validation .arguments _ => "ARGUMENTS_VALIDATION_ERROR"
  | validation .result _ => "RETURN_VALIDATION_ERROR"
  | signature _ => "SIGNATURE_ERROR"
  | invocation _ => "INVOCATION_ERROR"

/-- Whether validation failed. -/
def isValidation : CallError → Bool
  | validation _ _ => true
  | _ => false

/-- The message of an error. -/
def message : CallError → String
  | binding error => error.message
  | validation _ message => message
  | signature error => error.message
  | invocation failure => "wrapped call failed: " ++ failure.text

end CallError

end CallGuard
