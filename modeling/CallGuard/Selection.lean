import CallGuard.Binding

/-!
# Selections

Which fields of a call are validated: those named, or all but those named.  An empty list of
names selects everything.
-/

namespace CallGuard

/-- The key under which a result is validated. -/
def resultKey : String := "result"

/-- Names, and whether they are left out instead of selected. -/
structure Selection where
  names : List String
  exclude : Bool
  deriving DecidableEq

/-- An argument of a decoration: a name to select, or the function that is decorated. -/
inductive DecorationArgument where
  | callable
  | name (name : String)
  deriving DecidableEq

namespace Selection

/-- Every field. -/
def all : Selection := ⟨[], false⟩

/-- The named fields. -/
def only (names : List String) : Selection := ⟨names, false⟩

/-- All but the named fields. -/
def except (names : List String) : Selection := ⟨names, true⟩

instance : Inhabited Selection := ⟨all⟩

/-- The names among the arguments of a decoration.  If the function comes first the decoration
    is bare and names nothing. -/
def namesOf : List DecorationArgument → List String
  | .name first :: rest =>
    first :: rest.filterMap fun argument =>
      match argument with
      | .name name => some name
      | .callable => none
  | _ => []

/-- The selection of the arguments of a decoration. -/
def ofDecoration (arguments : List DecorationArgument) (exclude : Bool) : Selection :=
  ⟨namesOf arguments, exclude⟩

/-- The same names, taken to select or to leave out. -/
def withExclude (selection : Selection) (exclude : Bool) : Selection :=
  ⟨selection.names, exclude⟩

/-- Whether a field is selected. -/
def includes (selection : Selection) (name : String) : Bool :=
  if selection.exclude then !selection.names.contains name
  else selection.names.isEmpty || selection.names.contains name

/-- The selected fields, in order. -/
def select (selection : Selection) (fields : List Field) : List Field :=
  fields.filter fun field => selection.includes field.name

end Selection

end CallGuard
