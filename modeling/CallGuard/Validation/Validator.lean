import CallGuard.Failure
import CallGuard.Validation.Conformance

/-!
# Validators

A validator takes types and values by name.  It fails, or it may give replacements for
values whose normal form differs.  The schema validator checks each value against its
type; any function of the same shape is a validator too.
-/

namespace CallGuard

/-- Field names with their types. -/
abbrev FieldTypes := OrderedMap TypeExpr

/-- Field names with their values. -/
abbrev Values := OrderedMap Value

/-- Field names with what should stand in the place of their values. -/
abbrev Replacements := OrderedMap Value

/-- Options handed to the validator of every call. -/
abbrev Options := OrderedMap Value

/-- Why a validator fails. -/
inductive ValidatorError where
  /-- Values do not conform. -/
  | invalid (issues : List Issue)
  /-- No value can be checked against a type. -/
  | schema (message : String)
  /-- Something else went wrong. -/
  | other (failure : Failure)

namespace ValidatorError

/-- The name of the kind of an error. -/
def kind : ValidatorError → String
  | invalid _ => "ValidationError"
  | schema _ => "SchemaError"
  | other _ => "ValidatorError"

/-- The text of an error. -/
def text : ValidatorError → String
  | invalid issues => reportText issues
  | schema message => message
  | other failure => failure.text

end ValidatorError

/-- A validation engine.  Its function takes types, values, whether replacements are
    wanted, and options. -/
structure Validator where
  name : String
  validate : FieldTypes → Values → Bool → Options → Except ValidatorError (Option Replacements)

namespace Validator

/-- The name of a validator that is a function of the caller's. -/
def customName : String := "custom"

/-- A validator of the caller's. -/
def custom
    (validate : FieldTypes → Values → Bool → Options →
      Except ValidatorError (Option Replacements)) : Validator :=
  ⟨customName, validate⟩

end Validator

namespace Schema

/-- The option that lets records hold names their type does not declare. -/
def allowExtraFields : String := "allow_extra_fields"

/-- Whether options allow undeclared names: only the value true does. -/
def allowsExtra (options : Options) : Bool :=
  ((options.get? allowExtraFields).bind Value.asBool?).getD false

/-- The verdicts on the names that have a type. -/
def verdicts (rules : Rules) (types : FieldTypes) (values : Values) :
    OrderedMap (Verdict Value) :=
  types.filterMap fun name type =>
    some (match values.get? name with
      | some value => type.check rules value (Path.root name)
      | none => .reject (Path.root name) .missing)

/-- An issue for each value whose name has no type. -/
def unexpected (types : FieldTypes) (values : Values) : List Issue :=
  (values.keys.filter fun name => !types.contains name).map fun name =>
    ⟨Path.root name, .undeclared⟩

/-- The last fault among verdicts. -/
def lastFault? (verdicts : Entries (Verdict Value)) : Option SchemaFault :=
  verdicts.foldl (fun fault? entry => entry.2.fault?.or fault?) none

/-- The normal forms that differ from the values they came from. -/
def changes (verdicts : OrderedMap (Verdict Value)) (values : Values) : Replacements :=
  verdicts.filterMap fun name verdict =>
    match verdict.normal?, values.get? name with
    | some normal, some value => if normal == value then none else some normal
    | _, _ => none

/-- Checks every value against its type and reports all issues.  A fault in a type takes
    precedence over issues; the changed normal forms are returned if replacements are wanted. -/
def validate (mode : Mode) (types : FieldTypes) (values : Values) (replace : Bool)
    (options : Options) : Except ValidatorError (Option Replacements) :=
  let verdicts := verdicts ⟨mode, allowsExtra options⟩ types values
  let issues := verdicts.entries.flatMap (fun entry => entry.2.issues)
    ++ unexpected types values
  match lastFault? verdicts.entries with
  | some fault => .error (.schema fault.message)
  | none =>
    if !issues.isEmpty then .error (.invalid issues)
    else
      let changes := changes verdicts values
      .ok (if replace && !changes.isEmpty then some changes else none)

/-- The name of the schema validator in a mode. -/
def validatorName : Mode → String
  | .strict => "schema"
  | .lax => "schema-lax"

/-- The schema validator in a mode. -/
def validator (mode : Mode) : Validator := ⟨validatorName mode, validate mode⟩

end Schema

end CallGuard
