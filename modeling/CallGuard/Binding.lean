import CallGuard.Signature

/-!
# Binding

A call is bound to a signature: positional arguments fill slots from the left, keywords go to
the parameter of their name, and the variadic parameters collect what is left.  The bound
arguments come in the order of declaration; defaults are not filled in.
-/

namespace CallGuard

/-- Why a call does not bind. -/
inductive BindError where
  | missingArgument (name : String)
  | tooManyPositional (expected given : Nat)
  | unexpectedKeyword (name : String)
  | multipleValues (name : String)
  | positionalOnlyAsKeyword (name : String)
  deriving DecidableEq

/-- The message of a bind error. -/
def BindError.message : BindError → String
  | missingArgument name => "missing a required argument: '" ++ name ++ "'"
  | tooManyPositional expected given =>
    "too many positional arguments: expected at most " ++ toString expected
      ++ ", got " ++ toString given
  | unexpectedKeyword name => "got an unexpected keyword argument '" ++ name ++ "'"
  | multipleValues name => "multiple values for argument '" ++ name ++ "'"
  | positionalOnlyAsKeyword name =>
    "'" ++ name ++ "' parameter is positional only, but was passed as a keyword"

/-- Where the arguments read so far go: to parameters by name, or into the surplus. -/
structure Assignment where
  named : Entries Value
  surplus : Entries Value

/-- The arguments that parameters are bound to, in the order of declaration. -/
abbrev BoundArguments := OrderedMap Value

/-- A bound argument with the type it is checked against. -/
structure Field where
  name : String
  value : Value
  type : TypeExpr

namespace Signature

/-- The parameter that a keyword may name: a variadic one has no name for callers. -/
def keywordTarget? (sig : Signature) (name : String) : Option Parameter :=
  (sig.parameter? name).filter fun p => !p.kind.isVariadic

/-- Assigns one keyword argument. -/
def assignKeyword (sig : Signature) (assigned : Assignment) (argument : String × Value) :
    Except BindError Assignment :=
  let asSurplus (error : BindError) : Except BindError Assignment :=
    if sig.varKeyword?.isSome then
      .ok { assigned with surplus := assigned.surplus ++ [argument] }
    else .error error
  match sig.keywordTarget? argument.1 with
  | none => asSurplus (.unexpectedKeyword argument.1)
  | some p =>
    if p.kind = .positionalOnly then asSurplus (.positionalOnlyAsKeyword argument.1)
    else if assigned.named.contains argument.1 then .error (.multipleValues argument.1)
    else .ok { assigned with named := assigned.named ++ [argument] }

/-- Assigns every argument of a call. -/
def assign (sig : Signature) (call : CallArguments) : Except BindError Assignment :=
  if sig.varPositional?.isNone && sig.positionalCount < call.positional.length then
    .error (.tooManyPositional sig.positionalCount call.positional.length)
  else
    call.keyword.entries.foldlM sig.assignKeyword
      ⟨(sig.positional.map Parameter.name).zip call.positional, []⟩

/-- What a parameter is bound to, if anything. -/
def boundValue? (sig : Signature) (call : CallArguments) (assigned : Assignment)
    (p : Parameter) : Option Value :=
  match p.kind with
  | .varPositional =>
    let surplus := call.positional.drop sig.positionalCount
    if surplus.isEmpty then none else some (.list surplus)
  | .varKeyword => if assigned.surplus.isEmpty then none else some (.map assigned.surplus)
  | _ => assigned.named.get? p.name

/-- Binds a call.  Surplus positional arguments are refused first, then keywords in the order
    of the call, then the first required parameter that nothing was assigned to. -/
def bind (sig : Signature) (call : CallArguments) : Except BindError BoundArguments :=
  match sig.assign call with
  | .error error => .error error
  | .ok assigned =>
    match sig.parameters.find? fun p => p.isRequired && !assigned.named.contains p.name with
    | some p => .error (.missingArgument p.name)
    | none =>
      .ok (.ofList (sig.parameters.filterMap fun p =>
        (sig.boundValue? call assigned p).map fun value => (p.name, value)))

/-- The bound arguments of a call whose parameters have a type. -/
def fields (sig : Signature) (call : CallArguments) : Except BindError (List Field) :=
  (sig.bind call).map fun bound =>
    bound.entries.filterMap fun (name, value) => do
      let type ← (← sig.parameter? name).boundType?
      return ⟨name, value, type⟩

end Signature

end CallGuard
