import CallGuard.OrderedMap
import CallGuard.Number.Binary64

/-!
# Values

What a call carries: arguments, keyword arguments and results.  A mapping that was validated
against a record type carries that type's name and is then a record.  Equality ignores the
order of names in mappings and records, compares floats as numbers, and tells the kinds apart.
-/

namespace CallGuard

/-- A value of a call. -/
inductive Value where
  | null
  | bool (b : Bool)
  | int (i : Int64)
  | float (x : Binary64)
  | str (s : String)
  | list (items : List Value)
  | map (entries : List (String × Value))
  | record (typeName : String) (fields : List (String × Value))
  deriving Inhabited

namespace Value

/-- The short name of a value's kind. -/
def kind : Value → String
  | null => "None"
  | bool _ => "bool"
  | int _ => "int"
  | float _ => "float"
  | str _ => "str"
  | list _ => "list"
  | map _ => "dict"
  | record _ _ => "record"

def isNull : Value → Bool
  | null => true
  | _ => false

def asBool? : Value → Option Bool
  | bool b => some b
  | _ => none

def asInt? : Value → Option Int64
  | int i => some i
  | _ => none

def asFloat? : Value → Option Binary64
  | float x => some x
  | _ => none

def asStr? : Value → Option String
  | str s => some s
  | _ => none

def asList? : Value → Option (List Value)
  | list items => some items
  | _ => none

/-- The type name and the fields of a record. -/
def asRecord? : Value → Option (String × Entries Value)
  | record typeName fields => some (typeName, fields)
  | _ => none

/-- The entries of a mapping or of a record. -/
def entries? : Value → Option (Entries Value)
  | map entries => some entries
  | record _ fields => some fields
  | _ => none

/-- The value at a name of a mapping or record. -/
def field? (value : Value) (name : String) : Option Value :=
  value.entries?.bind fun entries => entries.get? name

/-- The value at an index of a list. -/
def item? (value : Value) (index : Nat) : Option Value :=
  value.asList?.bind fun items => items[index]?

mutual

/-- Equality of values. -/
def equal : Value → Value → Bool
  | null, null => true
  | bool a, bool b => a == b
  | int i, int j => i == j
  | float x, float y => x.equal y
  | str s, str t => s == t
  | list xs, list ys => equalItems xs ys
  | map es, map fs => es.length == fs.length && coveredBy es fs
  | record n es, record m fs => n == m && es.length == fs.length && coveredBy es fs
  | _, _ => false

/-- Equality of lists of values, position by position. -/
def equalItems : List Value → List Value → Bool
  | [], [] => true
  | x :: xs, y :: ys => equal x y && equalItems xs ys
  | _, _ => false

/-- Whether the second entries hold every name of the first with an equal value. -/
def coveredBy : List (String × Value) → List (String × Value) → Bool
  | [], _ => true
  | (name, value) :: rest, others =>
    (match Entries.get? others name with
      | some other => equal value other
      | none => false) && coveredBy rest others

end

instance : BEq Value := ⟨equal⟩

/-- A mapping from pairs; repeated names are merged. -/
def mapOf (pairs : Entries Value) : Value := map (Entries.merged pairs)

/-- A record from pairs; repeated names are merged. -/
def recordOf (typeName : String) (pairs : Entries Value) : Value :=
  record typeName (Entries.merged pairs)

end Value

/-- Positional and keyword arguments as a caller supplies them. -/
structure CallArguments where
  positional : List Value
  keyword : OrderedMap Value

instance : Inhabited CallArguments := ⟨⟨[], .empty⟩⟩

end CallGuard
