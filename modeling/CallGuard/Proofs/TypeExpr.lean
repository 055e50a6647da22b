import CallGuard.TypeExpr

/-!
# Parts of types

Induction on type expressions, and the type expressions that occur in one.  What a theorem asks
of every union, literal or record type of an annotation is asked of its parts.
-/

namespace CallGuard

namespace TypeExpr

/-- Induction on a type: a motive that holds of the members of a type holds of the type. -/
@[elab_as_elim]
theorem induction {motive : TypeExpr → Prop}
    (any : motive .any) (null : motive .null) (bool : motive .bool) (int : motive .int)
    (float : motive .float) (str : motive .str) (format : ∀ f, motive (.format f))
    (list : ∀ item, motive item → motive (.list item))
    (tuple : ∀ items, (∀ item ∈ items, motive item) → motive (.tuple items))
    (map : ∀ value, motive value → motive (.map value))
    (optional : ∀ inner, motive inner → motive (.optional inner))
    (union : ∀ variants, (∀ variant ∈ variants, motive variant) → motive (.union variants))
    (literal : ∀ members, motive (.literal members))
    (record : ∀ name fields, (∀ field ∈ fields, motive field.type) → motive (.record name fields))
    (foreign : ∀ type, motive (.foreign type)) (type : TypeExpr) : motive type :=
  @TypeExpr.rec motive (fun types => ∀ t ∈ types, motive t)
    (fun fields => ∀ field ∈ fields, motive field.type) (fun field => motive field.type)
    any null bool int float str format list tuple map optional union literal record foreign
    (fun _ member => nomatch member) (fun _ _ head tail => List.forall_mem_cons.mpr ⟨head, tail⟩)
    (fun _ member => nomatch member) (fun _ _ head tail => List.forall_mem_cons.mpr ⟨head, tail⟩)
    (fun _ _ _ type => type) type

mutual

/-- The types that occur in a type, itself included. -/
def parts : TypeExpr → List TypeExpr
  | list item => .list item :: parts item
  | tuple items => .tuple items :: partsAll items
  | map value => .map value :: parts value
  | optional inner => .optional inner :: parts inner
  | union variants => .union variants :: partsAll variants
  | record name fields => .record name fields :: partsFields fields
  | type => [type]

/-- The types that occur in a list of types. -/
def partsAll : List TypeExpr → List TypeExpr
  | [] => []
  | first :: rest => parts first ++ partsAll rest

/-- The types that occur in the fields of a record type. -/
def partsFields : List (RecordField TypeExpr) → List TypeExpr
  | [] => []
  | field :: rest => parts field.type ++ partsFields rest

end

theorem self_mem_parts (type : TypeExpr) : type ∈ type.parts := by
  cases type <;> simp [parts]

theorem parts_subset_partsAll {types : List TypeExpr} {type : TypeExpr} (member : type ∈ types) :
    type.parts ⊆ partsAll types := by
  induction types with
  | nil => simp at member
  | cons first rest ih =>
    rcases List.mem_cons.mp member with rfl | later
    · exact List.subset_append_left _ _
    · exact List.subset_append_of_subset_right _ (ih later)

theorem parts_subset_partsFields {fields : List (RecordField TypeExpr)}
    {field : RecordField TypeExpr} (member : field ∈ fields) :
    field.type.parts ⊆ partsFields fields := by
  induction fields with
  | nil => simp at member
  | cons first rest ih =>
    rcases List.mem_cons.mp member with rfl | later
    · exact List.subset_append_left _ _
    · exact List.subset_append_of_subset_right _ (ih later)

/-! ## Members of a part are parts -/

variable {whole item : TypeExpr} {items : List TypeExpr} {name : String}
  {fields : List (RecordField TypeExpr)}

theorem parts_list_subset (inside : (list item).parts ⊆ whole.parts) :
    item.parts ⊆ whole.parts :=
  fun _ member => inside (List.mem_cons_of_mem _ member)

theorem parts_map_subset (inside : (map item).parts ⊆ whole.parts) :
    item.parts ⊆ whole.parts :=
  fun _ member => inside (List.mem_cons_of_mem _ member)

theorem parts_optional_subset (inside : (optional item).parts ⊆ whole.parts) :
    item.parts ⊆ whole.parts :=
  fun _ member => inside (List.mem_cons_of_mem _ member)

theorem parts_tuple_subset (inside : (tuple items).parts ⊆ whole.parts) (member : item ∈ items) :
    item.parts ⊆ whole.parts :=
  fun _ part => inside (List.mem_cons_of_mem _ (parts_subset_partsAll member part))

theorem parts_union_subset (inside : (union items).parts ⊆ whole.parts) (member : item ∈ items) :
    item.parts ⊆ whole.parts :=
  fun _ part => inside (List.mem_cons_of_mem _ (parts_subset_partsAll member part))

theorem parts_record_subset (inside : (record name fields).parts ⊆ whole.parts)
    {field : RecordField TypeExpr} (member : field ∈ fields) :
    field.type.parts ⊆ whole.parts :=
  fun _ part => inside (List.mem_cons_of_mem _ (parts_subset_partsFields member part))

theorem mem_of_parts_subset {type : TypeExpr} (inside : type.parts ⊆ whole.parts) :
    type ∈ whole.parts := inside type.self_mem_parts

/-- A type without foreign types, unions without variants and literals without members. -/
structure Plain (type : TypeExpr) : Prop where
  foreign : ∀ foreignType, .foreign foreignType ∉ type.parts
  union : .union [] ∉ type.parts
  literal : .literal [] ∉ type.parts

theorem Plain.variants_ne_nil {variants : List TypeExpr} (plain : Plain whole)
    (inside : (TypeExpr.union variants).parts ⊆ whole.parts) : variants ≠ [] := by
  intro empty
  subst empty
  exact plain.union (mem_of_parts_subset inside)

theorem Plain.members_ne_nil {members : List Value} (plain : Plain whole)
    (inside : (TypeExpr.literal members).parts ⊆ whole.parts) : members ≠ [] := by
  intro empty
  subst empty
  exact plain.literal (mem_of_parts_subset inside)

end TypeExpr

end CallGuard
