import CallGuard.Settings
import CallGuard.Yaml.Resolution

/-!
# Configurations

Settings as they stand in a YAML text: which mode the schema validator has, what is replaced,
and the options.  What is left out has its default, settings that are not known are passed
over, and a known one may stand only once.
-/

namespace CallGuard

/-- Settings read from a text. -/
structure Configuration where
  mode : Mode
  replaceArguments : Bool
  replaceResult : Bool
  extra : Options

namespace Configuration

/-- The configuration of an empty text. -/
def default : Configuration := ⟨.strict, true, true, .empty⟩

instance : Inhabited Configuration := ⟨default⟩

/-- How a mode is written. -/
def modeText : Mode → String
  | .strict => "schema"
  | .lax => "lax"

/-- The text of a scalar. -/
def textOf? : Yaml.Node → Option String
  | .scalar text _ => some text
  | _ => none

/-- The mode that a node names. -/
def modeOf? (node : Yaml.Node) : Option Mode := do
  let text ← textOf? node
  if text = modeText .strict then some .strict
  else if text = modeText .lax then some .lax
  else none

/-- The boolean that a node stands for; a text in quotes stands for none. -/
def boolOf? : Yaml.Node → Option Bool
  | .scalar text true => Yaml.boolOfPlain? text
  | _ => none

/-- How deeply options may be nested below their mapping. -/
def maximalDepth : Nat := 126

/-- An option, whose name may be any scalar. -/
def optionOf? (entry : Yaml.Node × Yaml.Node) : Option (String × Value) := do
  return (← textOf? entry.1, ← Value.ofContent? (← Yaml.contentOf? maximalDepth entry.2))

/-- The entries of a node: of a mapping, or none where nothing is written. -/
def entriesOf? : Yaml.Node → Option (List (Yaml.Node × Yaml.Node))
  | .mapping entries => some entries
  | .scalar "" true => some []
  | _ => none

/-- The options of a node; the last value of a repeated name counts. -/
def optionsOf? (node : Yaml.Node) : Option Options := do
  return .ofList (← (← entriesOf? node).mapM optionOf?)

/-- The values of the entries of a name: at most one. -/
def single? (entries : List (String × Yaml.Node)) (name : String) : Option (Option Yaml.Node) :=
  match entries.filter fun entry => entry.1 == name with
  | [] => some none
  | [entry] => some (some entry.2)
  | _ => none

/-- A setting of a name, read by `read`, or its default. -/
def setting? {α : Type} (entries : List (String × Yaml.Node)) (name : String)
    (read : Yaml.Node → Option α) (default : α) : Option α := do
  match ← single? entries name with
  | some node => read node
  | none => some default

/-- The configuration of a document; names of settings are scalars. -/
def ofNode? (node : Yaml.Node) : Option Configuration := do
  let entries ← (← entriesOf? node).mapM fun entry =>
    (textOf? entry.1).map fun name => (name, entry.2)
  return {
    mode := ← setting? entries "validator" modeOf? default.mode
    replaceArguments := ← setting? entries "replace_args" boolOf? default.replaceArguments
    replaceResult := ← setting? entries "replace_result" boolOf? default.replaceResult
    extra := ← setting? entries "extra" optionsOf? default.extra }

/-- The configuration of a YAML text. -/
def ofYaml? (text : String) : Option Configuration := do
  match ← Yaml.Node.ofText? text with
  | some node => ofNode? node
  | none => some default

/-- The configuration of a file, given its text if it could be read. -/
def ofFile? (contents : Option String) : Option Configuration := contents.bind ofYaml?

/-- An option of a configuration. -/
def option? (c : Configuration) (name : String) : Option Value := c.extra.get? name

/-- Equality of configurations. -/
def equal (a b : Configuration) : Bool :=
  a.mode == b.mode && a.replaceArguments == b.replaceArguments
    && a.replaceResult == b.replaceResult && Value.map a.extra.entries == Value.map b.extra.entries

instance : BEq Configuration := ⟨equal⟩

/-- The compact JSON text of a configuration. -/
def jsonText (c : Configuration) : String :=
  Json.bracketed "\x7b" "\x7d"
    ["\"validator\":" ++ quoteDocument (modeText c.mode),
      "\"replace_args\":" ++ Json.boolText c.replaceArguments,
      "\"replace_result\":" ++ Json.boolText c.replaceResult,
      "\"extra\":" ++ Value.jsonText (.map c.extra.entries)]

/-- The settings that a configuration describes. -/
def toSettings (c : Configuration) : Settings :=
  { validator := Schema.validator c.mode
    replaceArguments := c.replaceArguments
    replaceResult := c.replaceResult
    options := c.extra }

end Configuration

end CallGuard
