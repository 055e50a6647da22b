import CallGuard.Proofs.Renormalization
import CallGuard.Proofs.Validation

/-!
# Validating again

Values that passed the strict validator pass it again once the replacements it asked for are
made, and then it asks for none.
-/

namespace CallGuard

namespace Schema

variable {types : FieldTypes} {values : Values} {options : Options}

/-- Values with the replacements made that a validation asked for. -/
def overwritten (values : Values) : Option Replacements → Values
  | some replacements => values.insertAll replacements.entries
  | none => values

theorem get?_overwritten (values : Values) (changed : Replacements) (name : String) :
    (overwritten values (if !changed.isEmpty then some changed else none)).get? name =
      (changed.get? name).or (values.get? name) := by
  cases empty : changed.isEmpty with
  | false => exact values.get?_insertAll changed name
  | true =>
    rw [OrderedMap.isEmpty_iff.mp empty name, Option.none_or]
    rfl

/-- A normal form that an accepted value is replaced by has a normal form equal to it. -/
theorem exists_settled {rules : Rules} {name : String} {type : TypeExpr} {value normal : Value}
    (typed : types.get? name = some type) (found : values.get? name = some value)
    (fits : type.normal? rules value = some normal)
    (again : ∃ again, type.normal? rules normal = some again ∧ again.Equal normal) :
    ∃ v n, ((changed rules types values).get? name).or (values.get? name) = some v ∧
      type.normal? rules v = some n ∧ n.Equal v := by
  by_cases same : normal.Equal value
  · have unchanged : (changed rules types values).get? name = none := by
      rw [get?_changed_eq_none_iff]
      intro type' value' normal' typed' found' fits'
      cases typed.symm.trans typed'
      cases found.symm.trans found'
      cases fits.symm.trans fits'
      exact same
    exact ⟨value, normal, by simp [unchanged, found], fits, same⟩
  · have replaced := get?_changed_eq_some_iff.mpr ⟨type, value, typed, found, fits, same⟩
    obtain ⟨again, refits, equal⟩ := again
    exact ⟨normal, again, by simp [replaced], refits, equal⟩

/-- Validation asks for nothing where every value is equal to its normal form. -/
theorem validate_settled {mode : Mode} {replace : Bool}
    (settled : ∀ name type, types.get? name = some type → ∃ v n, values.get? name = some v ∧
      type.normal? ⟨mode, allowsExtra options⟩ v = some n ∧ n.Equal v)
    (expected : ∀ name ∈ values.keys, name ∈ types.keys) :
    validate mode types values replace options = .ok none := by
  refine validate_eq_ok_iff.mpr ⟨⟨?_, expected⟩, ?_⟩
  · intro name type typed
    obtain ⟨v, n, found, fits, -⟩ := settled name type typed
    exact ⟨v, found, by simp [fits]⟩
  · have unchanged : (changed ⟨mode, allowsExtra options⟩ types values).isEmpty = true := by
      rw [OrderedMap.isEmpty_iff]
      intro name
      rw [get?_changed_eq_none_iff]
      intro type value normal typed found fits
      obtain ⟨v, n, found', fits', same⟩ := settled name type typed
      cases found.symm.trans found'
      cases fits.symm.trans fits'
      exact same
    simp [unchanged]

/-- Strict validation asks for nothing once the replacements it asked for are made. -/
theorem validate_overwritten {replacements? : Option Replacements}
    (regular : ∀ name type, types.get? name = some type →
      type.Regular (allowsExtra options) Value.Equal)
    (distinct : ∀ name value, values.get? name = some value → value.Every Value.DistinctNames)
    (numbers : ∀ name value, values.get? name = some value → value.Every Value.IsNumber)
    (passed : validate .strict types values true options = .ok replacements?) :
    validate .strict types (overwritten values replacements?) true options = .ok none := by
  obtain ⟨conforms, made⟩ := validate_eq_ok_iff.mp passed
  have reads : ∀ name, (overwritten values replacements?).get? name =
      ((changed (.strict (allowsExtra options)) types values).get? name).or (values.get? name) := by
    rw [made, Bool.true_and]
    exact get?_overwritten values _
  apply validate_settled
  · intro name type typed
    obtain ⟨value, found, fits⟩ := conforms.fits name type typed
    obtain ⟨normal, fits⟩ := Option.isSome_iff_exists.mp fits
    have sound : value.Every fun part => part.DistinctNames ∧ part.IsNumber := fun part inside =>
      ⟨distinct name value found part inside, numbers name value found part inside⟩
    obtain ⟨again, refits, agree⟩ := TypeExpr.renormalizes_of_regular Value.congruent_equal
      (regular name type typed) (fun _ inside => inside) (by simp) sound normal fits
    rw [reads]
    exact exists_settled typed found fits
      ⟨again, refits, agree.mpr (TypeExpr.not_overtaken_strict rfl)⟩
  · intro name member
    rw [← OrderedMap.isSome_get?_iff, reads, Option.isSome_or, Bool.or_eq_true] at member
    rcases member with replaced | kept
    · obtain ⟨normal, there⟩ := Option.isSome_iff_exists.mp replaced
      obtain ⟨type, -, typed, -⟩ := get?_changed_eq_some_iff.mp there
      exact OrderedMap.isSome_get?_iff.mp (by simp [typed])
    · exact conforms.expected name (OrderedMap.isSome_get?_iff.mp kept)

/-- A list of integers, or a record whose second field may be left out. -/
def numbersOrPerson : TypeExpr :=
  .union [.list .int, .record "Person" [⟨"name", .str, none⟩, ⟨"age", .int, some (.int 0)⟩]]

theorem regular_numbersOrPerson : numbersOrPerson.Regular false Value.Equal where
  foreign := by
    simp [numbersOrPerson, TypeExpr.parts, TypeExpr.partsAll, TypeExpr.partsFields]
  union := by simp [numbersOrPerson, TypeExpr.parts, TypeExpr.partsAll, TypeExpr.partsFields]
  literal := by simp [numbersOrPerson, TypeExpr.parts, TypeExpr.partsAll, TypeExpr.partsFields]
  names := by simp [numbersOrPerson, TypeExpr.parts, TypeExpr.partsAll, TypeExpr.partsFields]
  alike name fields fields' inside inside' := by
    simp only [numbersOrPerson, TypeExpr.parts, TypeExpr.partsAll, TypeExpr.partsFields,
      List.append_nil, List.cons_append, List.nil_append, List.mem_cons, TypeExpr.record.injEq,
      reduceCtorEq, List.not_mem_nil, or_false, false_or] at inside inside'
    rw [inside.2, inside'.2]
  members := by simp [numbersOrPerson, TypeExpr.parts, TypeExpr.partsAll, TypeExpr.partsFields]
  defaults name fields inside field member default given := by
    simp only [numbersOrPerson, TypeExpr.parts, TypeExpr.partsAll, TypeExpr.partsFields,
      List.append_nil, List.cons_append, List.nil_append, List.mem_cons, TypeExpr.record.injEq,
      reduceCtorEq, List.not_mem_nil, or_false, false_or] at inside
    rw [inside.2] at member
    rcases List.mem_cons.mp member with rfl | last
    · cases given
    · rw [List.mem_singleton.mp last] at given ⊢
      cases given
      exact ⟨.int 0, rfl, rfl⟩

/-- A mapping becomes a record with its default filled in, and the record is left as it is. -/
theorem validate_overwritten_person :
    validate .strict (.ofList [("who", numbersOrPerson)])
        (.ofList [("who", .map [("name", .str "Ann")])]) true .empty =
      .ok (some (.ofList [("who", .record "Person" [("name", .str "Ann"), ("age", .int 0)])])) ∧
    validate .strict (.ofList [("who", numbersOrPerson)])
        (overwritten (.ofList [("who", .map [("name", .str "Ann")])]) (some
          (.ofList [("who", .record "Person" [("name", .str "Ann"), ("age", .int 0)])]))) true
        .empty = .ok none := by
  have passed : validate .strict (.ofList [("who", numbersOrPerson)])
      (.ofList [("who", .map [("name", .str "Ann")])]) true .empty =
        .ok (some (.ofList [("who", .record "Person" [("name", .str "Ann"), ("age", .int 0)])])) :=
    by rfl
  refine ⟨passed, validate_overwritten ?_ ?_ ?_ passed⟩
  · intro name type typed
    rw [← OrderedMap.eq_of_get?_ofList_singleton typed]
    exact regular_numbersOrPerson
  · intro name value found
    rw [← OrderedMap.eq_of_get?_ofList_singleton found]
    simp [Value.Every, Value.parts, Value.partsEntries, Value.DistinctNames, Value.entries?]
  · intro name value found
    rw [← OrderedMap.eq_of_get?_ofList_singleton found]
    simp [Value.Every, Value.parts, Value.partsEntries, Value.IsNumber]

end Schema

end CallGuard
