import CallGuard.Validation.Validator

/-!
# Settings

How the calls of a guarded function are validated: the validator, whether its replacements are
written back, and the options it is given.
-/

namespace CallGuard

/-- Settings of a guarded function. -/
structure Settings where
  validator : Validator
  replaceArguments : Bool
  replaceResult : Bool
  options : Options

namespace Settings

/-- Settings with a validator that write everything back and give no options. -/
def ofValidator (validator : Validator) : Settings := ⟨validator, true, true, .empty⟩

/-- Strict schema validation. -/
def default : Settings := ofValidator (Schema.validator .strict)

instance : Inhabited Settings := ⟨default⟩

/-- The inspection of settings. -/
def inspect (settings : Settings) : String :=
  "Settings \x7b validator: " ++ quoteReadable settings.validator.name
    ++ ", replace_args: " ++ Json.boolText settings.replaceArguments
    ++ ", replace_result: " ++ Json.boolText settings.replaceResult
    ++ ", extra: " ++ Value.inspectPairs (Value.inspectEntries settings.options.entries) ++ " \x7d"

end Settings

end CallGuard
