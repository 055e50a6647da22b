import CallGuard.Validation.Coercion
import CallGuard.Validation.Verdict

/-!
# Conformance

Checks a value against a type and finds its normal form.  A mapping that conforms to a
record type becomes a record of that name, with missing fields filled in; in lax mode
scalars convert.  The walk goes by recursion on the type and reports every position
that fails, except inside a union, where the first variant that fits decides.
-/

namespace CallGuard

/-- The rules of a check. -/
structure Rules where
  mode : Mode
  /-- Whether records may hold names that their type does not declare. -/
  allowExtra : Bool

namespace Conformance

/-- The verdict on a scalar that is already of its kind, or that converts in lax mode. -/
def scalar (mode : Mode) (type : TypeExpr) (value : Value) (path : Path)
    (own : Bool) (converted? : Option Value) : Verdict Value :=
  if own then .pass value
  else match mode, converted? with
    | .lax, some converted => .pass converted
    | _, _ => .reject path (.wrongKind type value)

/-- The verdict on a string of a format. -/
def formatted (format : StringFormat) (value : Value) (path : Path) : Verdict Value :=
  match value with
  | .str s => if format.accepts s then .pass value else .reject path (.wrongFormat format)
  | _ => .reject path (.wrongKind (.format format) value)

/-- The verdict on one of some values. -/
def oneOf (members : List Value) (value : Value) (path : Path) : Verdict Value :=
  if members.isEmpty then .broken (.emptyLiteral path)
  else if members.any fun member => member == value then .pass value
  else .reject path (.noMember (.literal members) value)

/-- The verdict of a foreign type: an object it writes back becomes a record of its name. -/
def foreign (type : ForeignType) (value : Value) (path : Path) : Verdict Value :=
  match type.check value.toJson with
  | .ok document =>
    match Value.ofJson document with
    | .map fields => .pass (.record type.name fields)
    | normal => .pass normal
  | .error message => .reject path (.custom message)

/-- The entries of a value that can be read as a mapping: records only in lax mode. -/
def mappingInput? (mode : Mode) : Value → Option (Entries Value)
  | .map entries => some entries
  | .record _ fields => if mode = .lax then some fields else none
  | _ => none

/-- The entries of a value that can be read as a record of a name: a mapping, a record of
    that name, and in lax mode a record of any name. -/
def recordInput? (mode : Mode) (name : String) : Value → Option (Entries Value)
  | .map entries => some entries
  | .record typeName fields => if typeName = name || mode = .lax then some fields else none
  | _ => none

/-- The entries whose names no field declares. -/
def undeclared (fields : List (RecordField TypeExpr)) (input : Entries Value) : Entries Value :=
  input.filter fun entry => !fields.any fun field => field.name == entry.1

/-- The verdict on entries that no field declares: kept if allowed, otherwise an issue each. -/
def extras (allowed : Bool) (path : Path) (entries : Entries Value) : Verdict (Entries Value) :=
  if allowed || entries.isEmpty then .pass entries
  else ⟨none, entries.map fun entry => ⟨path.key entry.1, .undeclared⟩, none⟩

end Conformance

open Conformance

mutual

/-- The verdict on a value at a position. -/
def TypeExpr.check (rules : Rules) (type : TypeExpr) (value : Value) (path : Path) :
    Verdict Value :=
  match type with
  | .any => .pass value
  | .null =>
    match value with
    | .null => .pass .null
    | _ => .reject path (.wrongKind .null value)
  | .bool =>
    scalar rules.mode .bool value path value.asBool?.isSome ((Coercion.toBool? value).map .bool)
  | .int =>
    scalar rules.mode .int value path value.asInt?.isSome ((Coercion.toInt? value).map .int)
  | .float =>
    scalar rules.mode .float value path value.asFloat?.isSome
      ((Coercion.toFloat? value).map .float)
  | .str =>
    scalar rules.mode .str value path value.asStr?.isSome ((Coercion.toStr? value).map .str)
  | .format f => formatted f value path
  | .list item =>
    match value with
    | .list items =>
      (Verdict.ofItems (fun v p => TypeExpr.check rules item v p) path 0 items).map .list
    | _ => .reject path (.wrongKind (.list item) value)
  | .tuple types =>
    match value with
    | .list items =>
      if items.length = types.length then
        (TypeExpr.checkTuple rules types items path 0).map .list
      else .reject path (.wrongLength types.length items.length)
    | _ => .reject path (.wrongKind (.tuple types) value)
  | .map inner =>
    match mappingInput? rules.mode value with
    | some entries =>
      (Verdict.ofEntries (fun v p => TypeExpr.check rules inner v p) path entries).map .map
    | none => .reject path (.wrongKind (.map inner) value)
  | .optional inner =>
    match value with
    | .null => .pass .null
    | _ => TypeExpr.check rules inner value path
  | .union variants =>
    if variants.isEmpty then .broken (.emptyUnion path)
    else
      let exact := TypeExpr.tryVariants ⟨.strict, rules.allowExtra⟩ variants value path
      let attempt := match rules.mode with
        | .strict => exact
        | .lax => exact.orElse
            (TypeExpr.tryVariants ⟨.lax, rules.allowExtra⟩ variants value path)
      attempt.verdict path (.noVariant (.union variants))
  | .literal members => oneOf members value path
  | .record name fields =>
    match recordInput? rules.mode name value with
    | some input =>
      .both (fun declared kept => Value.recordOf name (declared ++ kept))
        (TypeExpr.checkFields rules fields input path)
        (extras rules.allowExtra path (undeclared fields input))
    | none => .reject path (.wrongRecord name value)
  | .foreign type => Conformance.foreign type value path

/-- The verdict on the items of a tuple, each against the type of its position. -/
def TypeExpr.checkTuple (rules : Rules) (types : List TypeExpr) (items : List Value)
    (path : Path) (i : Nat) : Verdict (List Value) :=
  match types, items with
  | type :: types, item :: items =>
    .both List.cons (TypeExpr.check rules type item (path.index i))
      (TypeExpr.checkTuple rules types items path (i + 1))
  | _, _ => .pass []

/-- The first variant that fits, unless a variant before it is at fault. -/
def TypeExpr.tryVariants (rules : Rules) (variants : List TypeExpr) (value : Value)
    (path : Path) : Attempt :=
  match variants with
  | [] => .refused
  | variant :: variants =>
    let verdict := TypeExpr.check rules variant value path
    match verdict.fault?, verdict.normal? with
    | some fault, _ => .broken fault
    | none, some normal => .matched normal
    | none, none => TypeExpr.tryVariants rules variants value path

/-- The verdict on the declared fields of a record, as declared. -/
def TypeExpr.checkFields (rules : Rules) (fields : List (RecordField TypeExpr))
    (input : Entries Value) (path : Path) : Verdict (Entries Value) :=
  match fields with
  | [] => .pass []
  | field :: fields =>
    let verdict := match input.get? field.name, field.default with
      | some value, _ => TypeExpr.check rules field.type value (path.key field.name)
      | none, some default => .pass default
      | none, none => .reject (path.key field.name) .missing
    .both (fun head tail => (field.name, head) :: tail) verdict
      (TypeExpr.checkFields rules fields input path)

end

end CallGuard
