import CallGuard.Proofs.FailClosed
import CallGuard.Proofs.StrictNormalForm

/-!
# Complete reports

A check reaches the positions inside a value that its walk enters, through optionals but never
inside unions and foreign types.  Its issues are, in the order of the walk and once each, the
reachable positions that refuse their value, the required fields that are missing there and the
names that are not allowed there, and the path of an issue leads to what it is about.
-/

namespace CallGuard

namespace Value

/-- The value one step inside a value. -/
def step? (value : Value) : PathSegment → Option Value
  | .key name => value.field? name
  | .index i => value.item? i

/-- The value at the end of some steps inside a value. -/
def at? (value : Value) : List PathSegment → Option Value
  | [] => some value
  | step :: rest => (value.step? step).bind fun inner => inner.at? rest

theorem at?_append (value : Value) (steps others : List PathSegment) :
    value.at? (steps ++ others) = (value.at? steps).bind fun inner => inner.at? others := by
  induction steps generalizing value with
  | nil => rfl
  | cons step rest ih =>
    simp only [List.cons_append, at?]
    cases value.step? step with
    | none => rfl
    | some inner => exact ih inner

end Value

namespace TypeExpr

open Conformance

/-- The positions that a check reaches, by the steps to them: below what the walk enters and
    through an optional, but not inside unions and foreign types. -/
inductive Reachable (rules : Rules) : TypeExpr → Value → List PathSegment → TypeExpr → Value → Prop
  | here (type : TypeExpr) (value : Value) : Reachable rules type value [] type value
  | enter {type t type' : TypeExpr} {value v value' : Value} {step : PathSegment}
      {rest : List PathSegment} (enters : Enters rules type value step t v)
      (reached : Reachable rules t v rest type' value') :
      Reachable rules type value (step :: rest) type' value'
  | present {inner type' : TypeExpr} {value value' : Value} {steps : List PathSegment}
      (present : value.isNull = false) (reached : Reachable rules inner value steps type' value') :
      Reachable rules (.optional inner) value steps type' value'

/-- What a check itself reports at a position, by the steps from there: the value is refused, a
    required field is missing, or a name is not allowed. -/
inductive FailsHere (rules : Rules) (type : TypeExpr) (value : Value) :
    List PathSegment → IssueReason → Prop
  | refused {reason : IssueReason} (refuses : Refuses rules type value reason) :
      FailsHere rules type value [] reason
  | missing {name : String} (lacks : Lacks rules type value name) :
      FailsHere rules type value [.key name] .missing
  | undeclared {name : String} (forbids : Forbids rules type value name) :
      FailsHere rules type value [.key name] .undeclared

/-- What a report has to name: whatever fails at a reachable position. -/
inductive Fails (rules : Rules) (type : TypeExpr) (value : Value) :
    List PathSegment → IssueReason → Prop
  | below {steps rest : List PathSegment} {t : TypeExpr} {v : Value} {reason : IssueReason}
      (reached : Reachable rules type value steps t v) (here : FailsHere rules t v rest reason) :
      Fails rules type value (steps ++ rest) reason

/-- The order of a walk: two positions lie below different stops of a reachable position, the first
    below the earlier stop. -/
inductive Precedes (rules : Rules) (type : TypeExpr) (value : Value) :
    List PathSegment → List PathSegment → Prop
  | below {common rest rest' : List PathSegment} {first second : PathSegment} {t : TypeExpr}
      {v : Value} (reached : Reachable rules type value common t v)
      (order : [first, second].Sublist ((stops rules t v).map Stop.step)) :
      Precedes rules type value (common ++ first :: rest) (common ++ second :: rest')

variable {rules : Rules} {type t inner : TypeExpr} {variants : List TypeExpr} {value v : Value}
  {path : Path} {step : PathSegment} {steps steps' : List PathSegment} {reason : IssueReason}
  {issue : Issue}

/-! ## Failures below a position -/

/-- What fails at a stop or below it. -/
def FailsAt (rules : Rules) : Stop → List PathSegment → IssueReason → Prop
  | .inner _ t v => TypeExpr.Fails rules t v
  | .missing _ => fun rest reason => rest = [] ∧ reason = .missing
  | .undeclared _ => fun rest reason => rest = [] ∧ reason = .undeclared

theorem Fails.enter (enters : Enters rules type value step t v)
    (fails : Fails rules t v steps reason) : Fails rules type value (step :: steps) reason := by
  cases fails with
  | below reached here => exact .below (.enter enters reached) here

/-- Below a type that is not optional something fails at the position itself or at a stop. -/
theorem fails_iff_of_ne (notOptional : ∀ inner, type ≠ .optional inner) :
    Fails rules type value steps reason ↔ (steps = [] ∧ Refuses rules type value reason) ∨
      ∃ stop ∈ stops rules type value, ∃ rest, steps = stop.step :: rest ∧
        FailsAt rules stop rest reason := by
  constructor
  · intro fails
    cases fails with
    | below reached here =>
      cases reached with
      | here =>
        cases here with
        | refused refuses => exact .inl ⟨rfl, refuses⟩
        | missing lacks => exact .inr ⟨_, missing_mem_stops_iff.mpr lacks, [], rfl, rfl, rfl⟩
        | undeclared forbids =>
          exact .inr ⟨_, undeclared_mem_stops_iff.mpr forbids, [], rfl, rfl, rfl⟩
      | enter enters reached =>
        exact .inr ⟨_, inner_mem_stops_iff.mpr enters, _, rfl, .below reached here⟩
      | present => exact absurd rfl (notOptional _)
  · rintro (⟨rfl, refuses⟩ | ⟨stop, listed, rest, rfl, fails⟩)
    · exact .below (.here type value) (.refused refuses)
    · cases stop with
      | inner step t v => exact Fails.enter (inner_mem_stops_iff.mp listed) fails
      | missing name =>
        obtain ⟨rfl, rfl⟩ := fails
        exact .below (.here type value) (.missing (missing_mem_stops_iff.mp listed))
      | undeclared name =>
        obtain ⟨rfl, rfl⟩ := fails
        exact .below (.here type value) (.undeclared (undeclared_mem_stops_iff.mp listed))

/-- Below an optional something fails exactly if the value is not null and something fails below
    the inner type. -/
theorem fails_optional_iff : Fails rules (.optional inner) value steps reason ↔
    value.isNull = false ∧ Fails rules inner value steps reason := by
  constructor
  · intro fails
    cases fails with
    | below reached here =>
      cases reached with
      | here =>
        cases here with
        | refused refuses => cases refuses
        | missing lacks => cases lacks
        | undeclared forbids => cases forbids
      | enter enters => cases enters
      | present present reached => exact ⟨present, .below reached here⟩
  · intro both
    obtain ⟨present, fails⟩ := both
    cases fails with
    | below reached here => exact .below (.present present reached) here

theorem fails_union_iff : Fails rules (.union variants) value steps reason ↔
    steps = [] ∧ Refuses rules (.union variants) value reason := by
  simp [fails_iff_of_ne, stops]

/-! ## Issues below a position -/

theorem variants_ne_nil (sound : ¬ MeetsHollow rules (.union variants) value) : variants ≠ [] :=
  fun empty => sound (Hollow.meetsHollow (.inl (by rw [empty])))

theorem settles_of_sound (notOptional : ∀ inner, type ≠ .optional inner)
    (notUnion : ∀ variants, type ≠ .union variants) (sound : ¬ MeetsHollow rules type value) :
    Settles rules type value path :=
  settles_check notOptional notUnion fun empty => sound (Hollow.meetsHollow (.inr empty))

/-- The issues of a check are what fails, at the end of the path. -/
def Reports (rules : Rules) (type : TypeExpr) (value : Value) (path : Path) : Prop :=
  ∀ issue, issue ∈ (type.check rules value path).issues ↔
    ∃ steps reason, Fails rules type value steps reason ∧ issue = ⟨path.extend steps, reason⟩

/-- The issues at a stop are what fails there, at the end of the path. -/
theorem mem_issues_stop_iff {stop : Stop}
    (reports : ∀ t v, stop = .inner stop.step t v → Reports rules t v (path.extend [stop.step])) :
    issue ∈ (stop.verdict rules path).issues ↔ ∃ rest reason, FailsAt rules stop rest reason ∧
      issue = ⟨path.extend (stop.step :: rest), reason⟩ := by
  cases stop with
  | inner step t v =>
    have below := reports t v rfl issue
    simp only [Path.extend_extend, Stop.step, List.singleton_append] at below
    exact below
  | missing name => simp [Stop.verdict, FailsAt, Stop.step]
  | undeclared name => simp [Stop.verdict, FailsAt, Stop.step]

/-- Without a fault a union fits exactly if one of its variants does. -/
theorem normal?_union_eq_none_iff (sound : ¬ MeetsHollow rules (.union variants) value) :
    (union variants).normal? rules value = none ↔
      ∀ variant ∈ variants, variant.normal? rules value = none := by
  constructor
  · intro unmatched
    have tried := attempt_cases rules variants value
    split at tried
    next normal matched => simp [normal?_union_eq_some_iff.mpr matched] at unmatched
    next fault broken =>
      have met : ((union variants).check rules value .empty).fault? ≠ none := by
        rw [check_union_empty (variants_ne_nil sound), broken]
        simp [Attempt.verdict]
      exact absurd (fault?_ne_none_iff.mp met) sound
    next => exact tried
  · intro unmatched
    rw [Option.eq_none_iff_forall_ne_some]
    intro normal matched
    obtain ⟨variant, member, fits⟩ := exists_variant_of_normal?_union matched
    simp [unmatched variant member] at fits

/-- A union that does not fit, without a fault, is refused at its position. -/
theorem check_union_of_none (sound : ¬ MeetsHollow rules (.union variants) value)
    (unmatched : (union variants).normal? rules value = none) :
    (union variants).check rules value path = .reject path (.noVariant (.union variants)) := by
  have present := variants_ne_nil sound
  obtain ⟨attempt, tried⟩ : ∃ attempt : Attempt, (union variants).check rules value path =
      attempt.verdict path (.noVariant (.union variants)) :=
    ⟨_, by simp only [TypeExpr.check, List.isEmpty_iff, present, if_false]; rfl⟩
  have noFault : ¬ ((union variants).check rules value path).fault? ≠ none :=
    mt fault?_ne_none_iff.mp sound
  rw [← normal?_check _ value path] at unmatched
  rw [tried] at unmatched noFault ⊢
  cases attempt with
  | matched normal => simp [Attempt.verdict] at unmatched
  | broken fault => simp [Attempt.verdict] at noFault
  | refused => rfl

theorem reports_union (sound : ¬ MeetsHollow rules (.union variants) value) :
    Reports rules (.union variants) value path := by
  intro issue
  simp only [fails_union_iff]
  cases fits : (union variants).normal? rules value with
  | some normal =>
    have matched : ∀ reason, ¬ Refuses rules (.union variants) value reason := by
      intro reason refuses
      cases refuses with
      | union unmatched => simp [(normal?_union_eq_none_iff sound).mpr unmatched] at fits
    simp [check_eq_pass_iff.mpr fits, matched]
  | none =>
    have unmatched : ∀ reason, Refuses rules (.union variants) value reason ↔
        reason = .noVariant (.union variants) := by
      intro reason
      constructor
      · intro refuses
        cases refuses
        rfl
      · rintro rfl
        exact .union ((normal?_union_eq_none_iff sound).mp fits)
    simp [check_union_of_none sound fits, unmatched, Path.extend]

/-- A check refuses a value for one reason. -/
theorem Refuses.unique {reason' : IssueReason} (refuses : Refuses rules type value reason)
    (refuses' : Refuses rules type value reason') : reason' = reason := by
  cases refuses <;> cases refuses' <;> simp_all [Value.asStr?, Value.asList?]

/-- A check that meets no type without values reports exactly what fails. -/
theorem reports_of_sound (sound : ¬ MeetsHollow rules type value) :
    Reports rules type value path := by
  induction type using walk_induction generalizing rules value path with
  | optional inner ih =>
    intro issue
    rw [meetsHollow_optional_iff] at sound
    simp only [fails_optional_iff, check_optional]
    cases present : value.isNull with
    | true => simp
    | false => simpa using ih (fun met => sound ⟨present, met⟩) issue
  | union variants ih => exact reports_union sound
  | other type notOptional notUnion ih =>
    intro issue
    simp only [fails_iff_of_ne notOptional]
    have settles : Settles rules type value path := settles_of_sound notOptional notUnion sound
    rcases settles with ⟨reason, refuses, refused, leaf⟩ | ⟨accepts, gathers⟩
    · have only : ∀ reason', Refuses rules type value reason' ↔ reason' = reason :=
        fun reason' => ⟨refuses.unique, fun same => same ▸ refuses⟩
      rw [refused]
      simp [leaf, only, Path.extend]
    · have below : ∀ stop ∈ stops rules type value, issue ∈ (stop.verdict rules path).issues ↔
          ∃ rest reason, FailsAt rules stop rest reason ∧
            issue = ⟨path.extend (stop.step :: rest), reason⟩ := by
        intro stop listed
        refine mem_issues_stop_iff fun t v same => ?_
        have enters := inner_mem_stops_iff.mp (same ▸ listed)
        exact ih _ _ _ _ _ enters fun met => sound (met.enter enters)
      rw [gathers.issues, List.flatMap_map, List.mem_flatMap]
      constructor
      · rintro ⟨stop, listed, member⟩
        obtain ⟨rest, reason, fails, rfl⟩ := (below stop listed).mp member
        exact ⟨_, reason, .inr ⟨stop, listed, rest, rfl, fails⟩, rfl⟩
      · rintro ⟨steps, reason, ⟨-, refuses⟩ | ⟨stop, listed, rest, rfl, fails⟩, rfl⟩
        · exact absurd refuses (accepts reason)
        · exact ⟨stop, listed, (below stop listed).mpr ⟨rest, reason, fails, rfl⟩⟩

/-- The path of an issue at a stop begins with the step to the stop. -/
theorem exists_extend_of_mem_issues_stop {stop : Stop}
    (sound : ∀ t v, stop = .inner stop.step t v → ¬ MeetsHollow rules t v)
    (member : issue ∈ (stop.verdict rules path).issues) :
    ∃ rest, issue.path = path.extend (stop.step :: rest) := by
  rw [mem_issues_stop_iff fun t v same => reports_of_sound (sound t v same)] at member
  obtain ⟨rest, reason, -, rfl⟩ := member
  exact ⟨rest, rfl⟩

/-! ## The order of issues -/

theorem Precedes.enter (enters : Enters rules type value step t v)
    (precedes : Precedes rules t v steps steps') :
    Precedes rules type value (step :: steps) (step :: steps') := by
  cases precedes with
  | below reached order => exact .below (.enter enters reached) order

theorem Precedes.present (present : value.isNull = false)
    (precedes : Precedes rules inner value steps steps') :
    Precedes rules (.optional inner) value steps steps' := by
  cases precedes with
  | below reached order => exact .below (.present present reached) order

/-- The issues of a check stand in the order of its walk. -/
def Ordered (rules : Rules) (type : TypeExpr) (value : Value) (path : Path) : Prop :=
  (type.check rules value path).issues.Pairwise fun first second => ∃ steps steps',
    first.path = path.extend steps ∧ second.path = path.extend steps' ∧
      Precedes rules type value steps steps'

/-- The issues at a stop stand in order if those of the check there do. -/
theorem ordered_stop {stop : Stop} (listed : stop ∈ stops rules type value)
    (ordered : ∀ t v, stop = .inner stop.step t v → Ordered rules t v (path.extend [stop.step])) :
    (stop.verdict rules path).issues.Pairwise fun first second => ∃ steps steps',
      first.path = path.extend steps ∧ second.path = path.extend steps' ∧
        Precedes rules type value steps steps' := by
  cases stop with
  | inner step t v =>
    have enters := inner_mem_stops_iff.mp listed
    refine List.Pairwise.imp ?_ (ordered t v rfl)
    rintro first second ⟨steps, steps', here, there, precedes⟩
    rw [Path.extend_extend] at here there
    exact ⟨_, _, here, there, precedes.enter enters⟩
  | missing name => exact List.pairwise_singleton _ _
  | undeclared name => exact List.pairwise_singleton _ _

/-- A check that meets no type without values reports in the order of the walk. -/
theorem ordered_of_sound (sound : ¬ MeetsHollow rules type value) :
    Ordered rules type value path := by
  induction type using walk_induction generalizing rules value path with
  | optional inner ih =>
    rw [meetsHollow_optional_iff] at sound
    simp only [Ordered, check_optional]
    cases present : value.isNull with
    | true => simp
    | false =>
      refine List.Pairwise.imp ?_ (ih fun met => sound ⟨present, met⟩)
      rintro first second ⟨steps, steps', here, there, precedes⟩
      exact ⟨steps, steps', here, there, precedes.present present⟩
  | union variants ih =>
    cases fits : (union variants).normal? rules value with
    | some normal => simp [Ordered, check_eq_pass_iff.mpr fits]
    | none => simp [Ordered, check_union_of_none sound fits]
  | other type notOptional notUnion ih =>
    have settles : Settles rules type value path := settles_of_sound notOptional notUnion sound
    rcases settles with ⟨reason, -, refused, -⟩ | ⟨-, gathers⟩
    · simp [Ordered, refused]
    · have sound' : ∀ {step t v}, Enters rules type value step t v → ¬ MeetsHollow rules t v :=
        fun enters met => sound (met.enter enters)
      -- Issues at one stop are in order by induction, those at two stops by the order of the stops.
      rw [Ordered, gathers.issues, List.flatMap_map, List.pairwise_flatMap]
      constructor
      · intro stop listed
        refine ordered_stop listed fun t v same => ?_
        have enters := inner_mem_stops_iff.mp (same ▸ listed)
        exact ih _ _ _ _ _ enters (sound' enters)
      · rw [List.pairwise_iff_forall_sublist]
        intro earlier later order first member second member'
        have begins : ∀ stop ∈ [earlier, later], ∀ issue ∈ (stop.verdict rules path).issues,
            ∃ rest, issue.path = path.extend (stop.step :: rest) := by
          intro stop inside issue member
          refine exists_extend_of_mem_issues_stop (fun t v same => ?_) member
          exact sound' (inner_mem_stops_iff.mp (same ▸ order.subset inside))
        obtain ⟨rest, here⟩ := begins earlier (by simp) first member
        obtain ⟨rest', there⟩ := begins later (by simp) second member'
        exact ⟨_, _, here, there, .below (.here type value) (order.map Stop.step)⟩

/-! ## Distinct positions -/

/-- The names of each record type are distinct. -/
def DistinctFields (type : TypeExpr) : Prop :=
  ∀ name fields, .record name fields ∈ type.parts → (declaredNames fields).Nodup

theorem key_injective : Function.Injective PathSegment.key := fun _ _ same => by cases same; rfl

theorem index_injective : Function.Injective PathSegment.index := fun _ _ same => by cases same; rfl

theorem nodup_steps_zipIdx {α : Type} (items : List α) (stopAt : α × Nat → Stop)
    (steps : ∀ item, (stopAt item).step = .index item.2) :
    ((items.zipIdx.map stopAt).map Stop.step).Nodup := by
  have indexed : Stop.step ∘ stopAt = PathSegment.index ∘ Prod.snd := funext steps
  rw [List.map_map, indexed, ← List.map_map, List.zipIdx_map_snd]
  exact List.Nodup.map index_injective List.nodup_range'

theorem steps_filterMap_sublist (fields : List (RecordField TypeExpr)) (input : Entries Value) :
    ((fields.filterMap (fieldStop? input)).map Stop.step).Sublist
      ((declaredNames fields).map PathSegment.key) := by
  induction fields with
  | nil => simp
  | cons field rest ih =>
    cases found : fieldStop? input field with
    | none =>
      simp only [List.filterMap_cons, found, List.map_cons]
      exact ih.cons _
    | some stop =>
      have same : stop.step = .key field.name := by
        unfold fieldStop? at found
        split at found <;> cases found <;> rfl
      simp only [List.filterMap_cons, found, List.map_cons, same]
      exact ih.cons_cons _

theorem nodup_steps_record {name : String} {fields : List (RecordField TypeExpr)}
    (names : (declaredNames fields).Nodup) (distinct : value.DistinctNames) :
    ((stops rules (.record name fields) value).map Stop.step).Nodup := by
  simp only [stops]
  cases read : recordInput? rules.mode name value with
  | none => exact List.nodup_nil
  | some input =>
    have distinct' : input.keys.Nodup := distinct input (entries?_of_recordInput? read)
    have declared := steps_filterMap_sublist fields input
    rw [List.map_append, List.nodup_append]
    refine ⟨declared.nodup (names.map key_injective), ?_, ?_⟩
    · split
      · exact List.nodup_nil
      · have kept : (undeclared fields input).keys.Nodup :=
          (List.filter_sublist.map Prod.fst).nodup distinct'
        have keyed := kept.map key_injective
        simpa [Entries.keys, Function.comp_def, Stop.step] using keyed
    · rintro step early _ late rfl
      obtain ⟨key, known, rfl⟩ := List.mem_map.mp (declared.subset early)
      split at late
      · cases late
      · obtain ⟨stop, listed, same⟩ := List.mem_map.mp late
        obtain ⟨entry, member, rfl⟩ := List.mem_map.mp listed
        cases same
        exact (mem_undeclared_iff.mp member).2 known

/-- A walk comes to each stop below a position once. -/
theorem nodup_steps (names : type.DistinctFields) (distinct : value.DistinctNames) :
    ((stops rules type value).map Stop.step).Nodup := by
  cases type with
  | list item =>
    cases value with
    | list items => exact nodup_steps_zipIdx items _ fun _ => rfl
    | _ => exact List.nodup_nil
  | tuple types =>
    cases value with
    | list items =>
      simp only [stops]
      split
      · exact nodup_steps_zipIdx (types.zip items) _ fun _ => rfl
      · exact List.nodup_nil
    | _ => exact List.nodup_nil
  | map item =>
    simp only [stops]
    cases read : mappingInput? rules.mode value with
    | none => exact List.nodup_nil
    | some entries =>
      have distinct' : entries.keys.Nodup := distinct entries (entries?_of_mappingInput? read)
      have keyed := distinct'.map key_injective
      simpa [Entries.keys, Function.comp_def, Stop.step] using keyed
  | record name fields =>
    exact nodup_steps_record (names name fields (self_mem_parts _)) distinct
  | _ => exact List.nodup_nil

theorem Enters.parts_subset (enters : Enters rules type value step t v) : t.parts ⊆ type.parts := by
  have inside := List.Subset.refl type.parts
  cases enters with
  | item => exact parts_list_subset inside
  | position _ typed => exact parts_tuple_subset inside (List.mem_of_getElem? typed)
  | entry => exact parts_map_subset inside
  | field _ member => exact parts_record_subset inside member

theorem Enters.every {good : Value → Prop} (enters : Enters rules type value step t v)
    (every : value.Every good) : v.Every good := by
  cases enters with
  | item found => exact every.item (List.mem_of_getElem? found)
  | position _ _ found => exact every.item (List.mem_of_getElem? found)
  | entry read member => exact every.entry (entries?_of_mappingInput? read) member
  | field read _ found =>
    exact every.entry (entries?_of_recordInput? read) (Entries.mem_of_get? found)

theorem Reachable.parts_subset (reached : Reachable rules type value steps t v) :
    t.parts ⊆ type.parts := by
  induction reached with
  | here => exact List.Subset.refl _
  | enter enters _ ih => exact List.Subset.trans ih enters.parts_subset
  | present _ _ ih => exact List.Subset.trans ih (parts_optional_subset (List.Subset.refl _))

theorem Reachable.every {good : Value → Prop} (reached : Reachable rules type value steps t v)
    (every : value.Every good) : v.Every good := by
  induction reached with
  | here => exact every
  | enter enters _ ih => exact ih (enters.every every)
  | present _ _ ih => exact ih every

/-- Where names are distinct, of two positions in order neither is the other. -/
theorem Precedes.ne (names : type.DistinctFields) (distinct : value.Every Value.DistinctNames)
    (precedes : Precedes rules type value steps steps') : steps ≠ steps' := by
  cases precedes with
  | @below common rest rest' first second _ _ reached order =>
    have names' : DistinctFields _ := fun name fields member =>
      names name fields (reached.parts_subset member)
    -- The steps part where the two stops differ.
    have apart := order.nodup (nodup_steps names' (reached.every distinct).self)
    intro same
    have heads := List.head_eq_of_cons_eq (List.append_cancel_left same)
    simp [heads] at apart

/-! ## Where the paths lead -/

/-- The steps of a walk lead into the value. -/
theorem Enters.step?_eq (distinct : value.DistinctNames)
    (enters : Enters rules type value step t v) : value.step? step = some v := by
  cases enters with
  | item found => simpa [Value.step?, Value.item?, Value.asList?] using found
  | position _ _ found => simpa [Value.step?, Value.item?, Value.asList?] using found
  | entry read member =>
    have read' := entries?_of_mappingInput? read
    simp [Value.step?, Value.field?, read', Entries.get?_of_mem (distinct _ read') member]
  | field read _ found =>
    simp [Value.step?, Value.field?, entries?_of_recordInput? read, found]

/-- The steps to a position lead to its value. -/
theorem Reachable.at?_eq (distinct : value.Every Value.DistinctNames)
    (reached : Reachable rules type value steps t v) : value.at? steps = some v := by
  induction reached with
  | here => rfl
  | enter enters _ ih =>
    rw [Value.at?, enters.step?_eq distinct.self, Option.bind_some]
    exact ih (enters.every distinct)
  | present _ _ ih => exact ih distinct

/-- There is a value where something fails, except where a field is missing. -/
theorem Fails.at?_eq_none_iff (distinct : value.Every Value.DistinctNames)
    (fails : Fails rules type value steps reason) :
    value.at? steps = none ↔ reason = .missing := by
  cases fails with
  | @below steps _ _ v _ reached here =>
    rw [Value.at?_append, reached.at?_eq distinct, Option.bind_some]
    cases here with
    | refused refuses =>
      refine iff_of_false (by simp [Value.at?]) ?_
      rintro rfl
      cases refuses
    | missing lacks =>
      cases lacks with
      | field read _ absent =>
        refine iff_of_true ?_ rfl
        simp [Value.at?, Value.step?, Value.field?, entries?_of_recordInput? read,
          Entries.get?_eq_none_iff.mpr absent]
    | undeclared forbids =>
      cases forbids with
      | name read _ present =>
        refine iff_of_false ?_ (by simp)
        simpa [Value.at?, Value.step?, Value.field?, entries?_of_recordInput? read,
          Entries.get?_eq_none_iff] using present

/-! ## The report -/

/-- The report of a check is complete and its paths are true.  Where the names of fields and of
    values are distinct and no type without values is met, the issues are exactly what fails at a
    reachable position, no two of them have one path, and they stand in the order of the walk.  The
    steps of each path lead to the value that it is about, and to none only for a field that is
    missing. -/
theorem report_exact (names : type.DistinctFields) (distinct : value.Every Value.DistinctNames)
    (sound : ¬ MeetsHollow rules type value) (path : Path) :
    (∀ issue, issue ∈ (type.check rules value path).issues ↔
      ∃ steps reason, Fails rules type value steps reason ∧
        issue = ⟨path.extend steps, reason⟩) ∧
    ((type.check rules value path).issues.map Issue.path).Nodup ∧
    (type.check rules value path).issues.Pairwise (fun first second => ∃ steps steps',
      first.path = path.extend steps ∧ second.path = path.extend steps' ∧
        Precedes rules type value steps steps') ∧
    (∀ steps t v, Reachable rules type value steps t v → value.at? steps = some v) ∧
    (∀ steps reason, Fails rules type value steps reason →
      (value.at? steps = none ↔ reason = .missing)) := by
  have ordered : Ordered rules type value path := ordered_of_sound sound
  refine ⟨reports_of_sound sound, ?_, ordered, fun steps t v reached => reached.at?_eq distinct,
    fun steps reason fails => fails.at?_eq_none_iff distinct⟩
  rw [List.Nodup, List.pairwise_map]
  refine ordered.imp ?_
  rintro first second ⟨steps, steps', here, there, precedes⟩ same
  rw [here, there] at same
  exact precedes.ne names distinct (path.extend_injective same)

/-- A text among integers, a missing tag and a name that is not declared are all reported. -/
theorem report_exact_three :
    let batch : TypeExpr := .record "Batch" [⟨"counts", .list .int, none⟩, ⟨"tag", .str, none⟩]
    let value : Value := .map [("counts", .list [.int 1, .str "x"]), ("note", .null)]
    let report := (batch.check (.strict false) value .empty).issues
    ⟨⟨[.key "counts", .index 1]⟩, .wrongKind .int (.str "x")⟩ ∈ report ∧
      ⟨⟨[.key "tag"]⟩, .missing⟩ ∈ report ∧ ⟨⟨[.key "note"]⟩, .undeclared⟩ ∈ report ∧
      (report.map Issue.path).Nodup := by
  intro batch value report
  have names : batch.DistinctFields := by
    simp [batch, DistinctFields, parts, partsFields]
  have distinct : value.Every Value.DistinctNames := by
    simp [value, Value.Every, Value.parts, Value.partsItems, Value.partsEntries,
      Value.DistinctNames, Value.entries?]
  have faultless : (batch.check (.strict false) value .empty).fault? = none := by rfl
  have sound : ¬ MeetsHollow (.strict false) batch value := fun met =>
    fault?_ne_none_iff.mpr met faultless
  obtain ⟨reported, once, -⟩ := report_exact names distinct sound .empty
  have count : Reachable (.strict false) batch value [.key "counts", .index 1] .int (.str "x") :=
    .enter (.field rfl List.mem_cons_self rfl) (.enter (.item rfl) (.here _ _))
  have counts : FailsHere (.strict false) .int (.str "x") [] (.wrongKind .int (.str "x")) :=
    .refused (.int rfl (absurd · (by decide)))
  have tag : Lacks (.strict false) batch value "tag" :=
    .field rfl (List.mem_cons_of_mem _ List.mem_cons_self) (by decide) rfl
  have note : Forbids (.strict false) batch value "note" := .name rfl rfl (by decide) (by decide)
  exact ⟨(reported _).mpr ⟨_, _, .below count counts, rfl⟩,
    (reported _).mpr ⟨_, _, .below (.here _ _) (.missing tag), rfl⟩,
    (reported _).mpr ⟨_, _, .below (.here _ _) (.undeclared note), rfl⟩, once⟩

end TypeExpr

end CallGuard
