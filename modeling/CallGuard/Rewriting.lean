import CallGuard.Binding

/-!
# Rewriting calls

Replacements are written back to where the call supplied the argument: over its keyword, over
its positional slot, over the tail of surplus positional arguments, or over surplus keywords.
A replacement with no such place is ignored, for a reason.
-/

namespace CallGuard

/-- Why a replacement is ignored. -/
inductive IgnoreReason where
  | notPositional
  | notAList
  | notAMapping
  | notKeyword
  | noParameter
  deriving DecidableEq

/-- The text of a reason. -/
def IgnoreReason.text : IgnoreReason → String
  | notPositional => "not supplied positionally"
  | notAList => "variadic positional replacement is not a list"
  | notAMapping => "variadic keyword replacement is not a mapping"
  | notKeyword => "not supplied as a keyword"
  | noParameter => "no such parameter"

namespace CallArguments

/-- The call with the value of a keyword replaced. -/
def setKeyword (call : CallArguments) (name : String) (value : Value) : CallArguments :=
  { call with keyword := call.keyword.insert name value }

/-- Replaces the value of a positional slot that the call filled. -/
def replaceSlot (sig : Signature) (call : CallArguments) (name : String) (value : Value) :
    Except IgnoreReason CallArguments :=
  match sig.position? name with
  | some slot =>
    if slot < call.positional.length then
      .ok { call with positional := call.positional.set slot value }
    else .error .notPositional
  | none => .error .notPositional

/-- Replaces what one parameter is bound to. -/
def replace (sig : Signature) (call : CallArguments) (name : String) (value : Value) :
    Except IgnoreReason CallArguments :=
  match (sig.parameter? name).map Parameter.kind with
  | none => .error .noParameter
  | some .positionalOnly => call.replaceSlot sig name value
  | some .positionalOrKeyword =>
    if call.keyword.contains name then .ok (call.setKeyword name value)
    else call.replaceSlot sig name value
  | some .keywordOnly =>
    if call.keyword.contains name then .ok (call.setKeyword name value) else .error .notKeyword
  | some .varPositional =>
    match value.asList? with
    | some items =>
      .ok { call with positional := call.positional.take sig.positionalCount ++ items }
    | none => .error .notAList
  | some .varKeyword =>
    match value.entries? with
    | some entries => .ok { call with keyword := call.keyword.insertAll entries }
    | none => .error .notAMapping

/-- The call with replacements written back one after another, and the ignored ones. -/
def replaceAll (sig : Signature) (call : CallArguments) (replacements : Entries Value) :
    CallArguments × List (String × IgnoreReason) :=
  replacements.foldl (fun (call, ignored) (name, value) =>
    match call.replace sig name value with
    | .ok next => (next, ignored)
    | .error reason => (call, ignored ++ [(name, reason)])) (call, [])

end CallArguments

end CallGuard
