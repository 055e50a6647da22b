import CallGuard.Event
import CallGuard.Selection
import CallGuard.Settings

/-!
# Guards

A guard stands around a function.  Before a call it validates the selected arguments and writes
replacements back; after it, it validates the result.  A call that does not bind or whose
arguments are refused never reaches the function.  Each stage gives an outcome and the events
that it logged.
-/

namespace CallGuard

/-- An outcome with the events logged on the way. -/
structure Logged (α : Type) where
  outcome : Except CallError α
  events : List Event

/-- Types and values of fields by name. -/
def Field.split (fields : List Field) : FieldTypes × Values :=
  (.ofList (fields.map fun field => (field.name, field.type)),
    .ofList (fields.map fun field => (field.name, field.value)))

/-- Runs a validator over fields.  Replacements are given only if there are any; an error
    becomes the validation error of the stage. -/
def Settings.validate (settings : Settings) (fields : List Field) (replace : Bool)
    (stage : Stage) : Logged (Option Replacements) :=
  let (types, values) := Field.split fields
  match settings.validator.validate types values replace settings.options with
  | .ok replacements => ⟨.ok (replacements.filter fun r => !r.isEmpty), []⟩
  | .error error =>
    ⟨.error (.validation stage ("Validation error " ++ error.kind ++ ": " ++ error.text ++ ".")),
      [.validationFailed stage error.kind settings.validator.name]⟩

/-- What stands around a function. -/
structure Guard where
  signature : Signature
  selection : Selection
  settings : Settings

namespace Guard

/-- Validates the selected ones among the fields of a call. -/
def validateFields (guard : Guard) (call : CallArguments) (selected : List Field) :
    Logged CallArguments :=
  let settings := guard.settings
  let announced := Event.validatingArguments (selected.map Field.name) settings.validator.name
  let validated := settings.validate selected settings.replaceArguments .arguments
  match validated.outcome with
  | .error error => ⟨.error error, announced :: validated.events⟩
  | .ok none => ⟨.ok call, announced :: validated.events⟩
  | .ok (some replacements) =>
    let (rewritten, ignored) := call.replaceAll guard.signature replacements.entries
    ⟨.ok rewritten,
      announced :: validated.events ++ .replacingArguments replacements.keys
        :: ignored.map fun (name, reason) => .ignoringReplacement name reason⟩

/-- The stage before the call. -/
def before (guard : Guard) (call : CallArguments) : Logged CallArguments :=
  match guard.signature.fields call with
  | .error error => ⟨.error (.binding error), []⟩
  | .ok fields =>
    let selected := guard.selection.select fields
    if selected.isEmpty then ⟨.ok call, []⟩ else guard.validateFields call selected

/-- The stage after the call.  A selection names the result `return`; validators see it under
    the key `result`. -/
def after (guard : Guard) (result : Value) : Logged Value :=
  if guard.selection.includes returnName then
    let settings := guard.settings
    let type := guard.signature.effectiveReturn
    let announced := Event.validatingResult type settings.validator.name
    let validated :=
      settings.validate [⟨resultKey, result, type⟩] settings.replaceResult .result
    match validated.outcome with
    | .error error => ⟨.error error, announced :: validated.events⟩
    | .ok replacements =>
      match replacements.bind fun r => r.get? resultKey with
      | some value => ⟨.ok value, announced :: validated.events ++ [.replacingResult]⟩
      | none => ⟨.ok result, announced :: validated.events⟩
  else ⟨.ok result, []⟩

end Guard

/-- A function that takes the arguments of a call, in any monad. -/
abbrev Callee (m : Type → Type) := CallArguments → m (Except Failure Value)

/-- A function with a guard around it. -/
structure GuardedFunction (m : Type → Type) where
  guard : Guard
  function : Callee m

/-- Calls a guarded function: it runs once, between the two stages, unless the first stage
    refuses. -/
def GuardedFunction.call {m : Type → Type} [Monad m] (guarded : GuardedFunction m)
    (call : CallArguments) : m (Logged Value) :=
  let admitted := guarded.guard.before call
  match admitted.outcome with
  | .error error => pure ⟨.error error, admitted.events⟩
  | .ok rewritten => do
    match ← guarded.function rewritten with
    | .error failure => return ⟨.error (.invocation failure), admitted.events⟩
    | .ok result =>
      let released := guarded.guard.after result
      return { released with events := admitted.events ++ released.events }

end CallGuard
