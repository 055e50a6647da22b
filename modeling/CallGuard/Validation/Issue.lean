import CallGuard.TypeExpr

/-!
# Issues

What a validation reports: positions in nested values, and at each of them why the value
does not conform.  A report is a list of issues; its text counts them and then gives each
on two lines.
-/

namespace CallGuard

/-- One step into a nested value. -/
inductive PathSegment where
  | key (name : String)
  | index (i : Nat)
  deriving DecidableEq

/-- The way from a top-level field to a nested position, outermost step first. -/
structure Path where
  segments : List PathSegment
  deriving DecidableEq

namespace Path

/-- The path without steps. -/
def empty : Path := ⟨[]⟩

instance : Inhabited Path := ⟨empty⟩

/-- The path to a top-level field. -/
def root (name : String) : Path := ⟨[.key name]⟩

/-- One step further to a name. -/
def key (path : Path) (name : String) : Path := ⟨path.segments ++ [.key name]⟩

/-- One step further to an index. -/
def index (path : Path) (i : Nat) : Path := ⟨path.segments ++ [.index i]⟩

/-- One step back; the empty path stays. -/
def parent (path : Path) : Path := ⟨path.segments.dropLast⟩

end Path

/-- The text of a step. -/
def PathSegment.text : PathSegment → String
  | key name => name
  | index i => toString i

/-- The steps of a path with dots between. -/
def Path.text (path : Path) : String := ".".intercalate (path.segments.map PathSegment.text)

/-- Why a value does not conform. -/
inductive IssueReason where
  /-- The value is of another kind. -/
  | wrongKind (expected : TypeExpr) (actual : Value)
  | wrongFormat (format : StringFormat)
  | wrongLength (expected actual : Nat)
  /-- No variant of a union fits. -/
  | noVariant (expected : TypeExpr)
  /-- The value equals no member of a literal. -/
  | noMember (expected : TypeExpr) (actual : Value)
  /-- The value can not be read as the named record. -/
  | wrongRecord (expected : String) (actual : Value)
  /-- A required field is missing. -/
  | missing
  /-- A field is not declared. -/
  | undeclared
  /-- A message given by a foreign type or by a validator of the caller. -/
  | custom (message : String)

/-- What a value is called where a record was expected. -/
def Value.describe : Value → String
  | .record typeName _ => "record " ++ typeName
  | value => value.kind

/-- The message of a reason. -/
def IssueReason.message : IssueReason → String
  | wrongKind expected actual => "expected " ++ expected.text ++ ", got " ++ actual.kind
  | wrongFormat format => "value is not a valid " ++ format.name
  | wrongLength expected actual =>
    "expected " ++ toString expected ++ " items, got " ++ toString actual
  | noVariant expected => "value does not match any variant of " ++ expected.text
  | noMember expected actual => "expected " ++ expected.text ++ ", got " ++ actual.display
  | wrongRecord expected actual => "expected " ++ expected ++ ", got " ++ actual.describe
  | missing => "field required"
  | undeclared => "extra fields not permitted"
  | custom message => message

/-- A position that does not conform. -/
structure Issue where
  path : Path
  reason : IssueReason

/-- The text of a report. -/
def reportText (issues : List Issue) : String :=
  toString issues.length ++ " validation error" ++ (if issues.length = 1 then "" else "s")
    ++ String.join (issues.map fun issue =>
      "\n" ++ issue.path.text ++ "\n  " ++ issue.reason.message)

/-- A type that no value can be checked against. -/
inductive SchemaFault where
  /-- A union without variants was met at a position. -/
  | emptyUnion (path : Path)
  /-- A literal without members was met at a position. -/
  | emptyLiteral (path : Path)

/-- The message of a fault. -/
def SchemaFault.message : SchemaFault → String
  | emptyUnion path => path.text ++ ": Union requires at least one variant"
  | emptyLiteral path => path.text ++ ": Literal requires at least one value"

end CallGuard
