import CallGuard.StringFormat
import CallGuard.Value.Encoding

/-!
# Type expressions

The declared type of a parameter or of a result: a tree that is compared with a value when a
call is made.  A type expression has a readable text and an inspection that shows its
constructors; equality of type expressions compares literals as values, and foreign types by
name and stamp.
-/

namespace CallGuard

/-- A type that reads documents by a rule of its own: it takes a document to the document it
    writes back, or refuses it with a message. -/
structure ForeignType where
  name : String
  /-- Tells independently made types apart; copies share it. -/
  stamp : Nat
  check : Json → Except String Json

/-- A named field of a record type; `τ` stands for the type expressions of fields. -/
structure RecordField (τ : Type) where
  name : String
  type : τ
  /-- What a missing field is filled with; without one the field is required. -/
  default : Option Value

/-- The declared type of a value. -/
inductive TypeExpr where
  /-- Every value. -/
  | any
  /-- Only null. -/
  | null
  | bool
  | int
  | float
  | str
  /-- A string of a format. -/
  | format (format : StringFormat)
  /-- A list of any length. -/
  | list (item : TypeExpr)
  /-- A list with one type for each position. -/
  | tuple (items : List TypeExpr)
  /-- A mapping with any names. -/
  | map (value : TypeExpr)
  /-- Null or the inner type. -/
  | optional (inner : TypeExpr)
  /-- The first variant that fits. -/
  | union (variants : List TypeExpr)
  /-- One of some values. -/
  | literal (members : List Value)
  /-- A mapping with known names, or a record made from one. -/
  | record (name : String) (fields : List (RecordField TypeExpr))
  /-- Whatever the foreign type reads. -/
  | foreign (type : ForeignType)
  deriving Inhabited

namespace TypeExpr

mutual

/-- The readable text of a type. -/
def text : TypeExpr → String
  | any => "Any"
  | null => "None"
  | bool => "bool"
  | int => "int"
  | float => "float"
  | str => "str"
  | format f => f.name
  | list item => "list[" ++ text item ++ "]"
  | tuple items => "tuple[" ++ ", ".intercalate (texts items) ++ "]"
  | map value => "dict[str, " ++ text value ++ "]"
  | optional inner => "Optional[" ++ text inner ++ "]"
  | union variants => "Union[" ++ ", ".intercalate (texts variants) ++ "]"
  | literal members => "Literal[" ++ ", ".intercalate (members.map Value.display) ++ "]"
  | record name _ => name
  | foreign type => type.name

/-- The texts of a list of types. -/
def texts : List TypeExpr → List String
  | [] => []
  | first :: rest => text first :: texts rest

end

/-- The inspection of a default. -/
def inspectDefault : Option Value → String
  | some value => "Some(" ++ value.inspect ++ ")"
  | none => "None"

mutual

/-- The inspection of a type shows its constructors. -/
def inspect : TypeExpr → String
  | any => "Any"
  | null => "None"
  | bool => "Bool"
  | int => "Int"
  | float => "Float"
  | str => "Str"
  | format f => "Format(" ++ f.constructorName ++ ")"
  | list item => "List(" ++ inspect item ++ ")"
  | tuple items => "Tuple([" ++ ", ".intercalate (inspectAll items) ++ "])"
  | map value => "Map(" ++ inspect value ++ ")"
  | optional inner => "Optional(" ++ inspect inner ++ ")"
  | union variants => "Union([" ++ ", ".intercalate (inspectAll variants) ++ "])"
  | literal members => "Literal([" ++ ", ".intercalate (members.map Value.inspect) ++ "])"
  | record name fields =>
    "Record(RecordSchema \x7b name: " ++ quoteReadable name ++ ", fields: ["
      ++ ", ".intercalate (inspectFields fields) ++ "] \x7d)"
  | foreign type => "Native(NativeType \x7b name: " ++ quoteReadable type.name ++ " \x7d)"

/-- The inspections of a list of types. -/
def inspectAll : List TypeExpr → List String
  | [] => []
  | first :: rest => inspect first :: inspectAll rest

/-- The inspections of the fields of a record type. -/
def inspectFields : List (RecordField TypeExpr) → List String
  | [] => []
  | field :: rest =>
    ("RecordField \x7b name: " ++ quoteReadable field.name ++ ", ty: " ++ inspect field.type
      ++ ", default: " ++ inspectDefault field.default ++ " \x7d") :: inspectFields rest

end

/-- Equality of defaults. -/
def equalDefaults : Option Value → Option Value → Bool
  | some v, some w => v == w
  | none, none => true
  | _, _ => false

mutual

/-- Equality of types. -/
def equal : TypeExpr → TypeExpr → Bool
  | any, any => true
  | null, null => true
  | bool, bool => true
  | int, int => true
  | float, float => true
  | str, str => true
  | format f, format g => f == g
  | list a, list b => equal a b
  | tuple as, tuple bs => equalAll as bs
  | map a, map b => equal a b
  | optional a, optional b => equal a b
  | union as, union bs => equalAll as bs
  | literal vs, literal ws => Value.equalItems vs ws
  | record n fs, record m gs => n == m && equalFields fs gs
  | foreign s, foreign t => s.name == t.name && s.stamp == t.stamp
  | _, _ => false

/-- Equality of lists of types. -/
def equalAll : List TypeExpr → List TypeExpr → Bool
  | [], [] => true
  | a :: as, b :: bs => equal a b && equalAll as bs
  | _, _ => false

/-- Equality of the fields of record types. -/
def equalFields : List (RecordField TypeExpr) → List (RecordField TypeExpr) → Bool
  | [], [] => true
  | f :: fs, g :: gs =>
    f.name == g.name && equal f.type g.type && equalDefaults f.default g.default
      && equalFields fs gs
  | _, _ => false

end

instance : BEq TypeExpr := ⟨equal⟩

end TypeExpr

end CallGuard
