import CallGuard.TypeExpr

/-!
# Signatures

The parameters of a function and its result type.  A signature is built from a list of
parameters that is read once from left to right; the first parameter that does not go with
those before it is the error.  The outcome of that reading is part of the type.
-/

namespace CallGuard

/-- The name under which a selection refers to the result; no parameter may bear it. -/
def returnName : String := "return"

/-- How a parameter may be supplied. -/
inductive ParameterKind where
  | positionalOnly
  | positionalOrKeyword
  | varPositional
  | keywordOnly
  | varKeyword
  deriving DecidableEq

namespace ParameterKind

/-- Whether the parameter takes one positional argument. -/
def isPositional : ParameterKind → Bool
  | positionalOnly | positionalOrKeyword => true
  | _ => false

/-- Whether the parameter collects surplus arguments. -/
def isVariadic : ParameterKind → Bool
  | varPositional | varKeyword => true
  | _ => false

end ParameterKind

/-- A declared parameter. -/
structure Parameter where
  name : String
  kind : ParameterKind
  type : Option TypeExpr
  default : Option Value

namespace Parameter

/-- Whether a call must supply the parameter. -/
def isRequired (p : Parameter) : Bool := p.default.isNone && !p.kind.isVariadic

/-- The type of what the parameter is bound to: a variadic one collects values of its
    type in a list or in a mapping. -/
def boundType? (p : Parameter) : Option TypeExpr :=
  p.type.map fun type =>
    match p.kind with
    | .varPositional => .list type
    | .varKeyword => .map type
    | _ => type

end Parameter

/-- Why a list of parameters is no signature; each names the parameter at fault. -/
inductive SignatureError where
  | duplicateParameter (name : String)
  | reservedName (name : String)
  | duplicateVariadic (name : String)
  | parameterAfterVarKeyword (name : String)
  | positionalAfterVarPositional (name : String)
  | positionalOnlyAfterPositionalOrKeyword (name : String)
  | requiredAfterDefault (name : String)
  deriving DecidableEq

/-- The message of a signature error. -/
def SignatureError.message : SignatureError → String
  | duplicateParameter name => "duplicate parameter name '" ++ name ++ "'"
  | reservedName name => "'" ++ name ++ "' is reserved and cannot name a parameter"
  | duplicateVariadic name => "more than one variadic positional parameter ('" ++ name ++ "')"
  | parameterAfterVarKeyword name =>
    "parameter '" ++ name ++ "' follows the variadic keyword parameter"
  | positionalAfterVarPositional name =>
    "positional parameter '" ++ name ++ "' follows the variadic positional parameter"
  | positionalOnlyAfterPositionalOrKeyword name =>
    "positional-only parameter '" ++ name ++ "' follows a positional-or-keyword parameter"
  | requiredAfterDefault name =>
    "required parameter '" ++ name ++ "' follows a parameter with a default"

/-- What the parameters read so far leave open for the next one. -/
structure Declared where
  names : List String
  varPositional : Bool
  varKeyword : Bool
  /-- Whether a positional parameter had a default. -/
  default : Bool
  positionalOrKeyword : Bool

namespace Declared

/-- Before any parameter. -/
def nothing : Declared := ⟨[], false, false, false, false⟩

/-- Why a parameter may not come next. -/
def objection? (d : Declared) (p : Parameter) : Option SignatureError :=
  if p.name = returnName then some (.reservedName p.name)
  else if d.names.contains p.name then some (.duplicateParameter p.name)
  else if d.varKeyword then some (.parameterAfterVarKeyword p.name)
  else match p.kind with
    | .positionalOnly | .positionalOrKeyword =>
      if d.varPositional then some (.positionalAfterVarPositional p.name)
      else if p.kind = .positionalOnly && d.positionalOrKeyword then
        some (.positionalOnlyAfterPositionalOrKeyword p.name)
      else if d.default && p.default.isNone then some (.requiredAfterDefault p.name)
      else none
    | .varPositional => if d.varPositional then some (.duplicateVariadic p.name) else none
    | .keywordOnly | .varKeyword => none

/-- With one more parameter read. -/
def add (d : Declared) (p : Parameter) : Declared where
  names := p.name :: d.names
  varPositional := d.varPositional || p.kind = .varPositional
  varKeyword := d.varKeyword || p.kind = .varKeyword
  default := d.default || (p.kind.isPositional && p.default.isSome)
  positionalOrKeyword := d.positionalOrKeyword || p.kind = .positionalOrKeyword

/-- The first objection on reading parameters from left to right. -/
def firstObjection? : Declared → List Parameter → Option SignatureError
  | _, [] => none
  | d, p :: rest =>
    match d.objection? p with
    | some error => some error
    | none => firstObjection? (d.add p) rest

end Declared

/-- Parameters that may follow one another as they do, and the type of the result. -/
structure Signature where
  parameters : List Parameter
  returns : Option TypeExpr
  orderly : Declared.nothing.firstObjection? parameters = none

namespace Signature

/-- The signature of a list of parameters, or what is wrong with it. -/
def build (parameters : List Parameter) (returns : Option TypeExpr) :
    Except SignatureError Signature :=
  match h : Declared.nothing.firstObjection? parameters with
  | some error => .error error
  | none => .ok ⟨parameters, returns, h⟩

/-- The parameter of a name. -/
def parameter? (sig : Signature) (name : String) : Option Parameter :=
  sig.parameters.find? fun p => p.name == name

/-- The parameters with a positional slot, in order. -/
def positional (sig : Signature) : List Parameter :=
  sig.parameters.filter fun p => p.kind.isPositional

/-- The number of positional slots. -/
def positionalCount (sig : Signature) : Nat := sig.positional.length

/-- The positional slot of a name. -/
def position? (sig : Signature) (name : String) : Option Nat :=
  sig.positional.findIdx? fun p => p.name == name

/-- The parameter that collects surplus positional arguments. -/
def varPositional? (sig : Signature) : Option Parameter :=
  sig.parameters.find? fun p => p.kind == .varPositional

/-- The parameter that collects surplus keyword arguments. -/
def varKeyword? (sig : Signature) : Option Parameter :=
  sig.parameters.find? fun p => p.kind == .varKeyword

/-- The type that results are checked against: null where none is declared. -/
def effectiveReturn (sig : Signature) : TypeExpr := sig.returns.getD .null

end Signature

end CallGuard
