import CallGuard.Proofs.Renormalization
import CallGuard.Proofs.Validation

/-!
# What a type accepts

The values that a type accepts, told from the structure of both without a check.  A plain type
checks strictly exactly what it accepts, and what a check in either mode returns is accepted, so
strict validation has nothing to refuse in it.
-/

namespace CallGuard

open Conformance

namespace TypeExpr

/-- The values that a type accepts; records may hold names that their type does not declare only
    where that is allowed. -/
inductive Accepts (allowExtra : Bool) : TypeExpr → Value → Prop
  | any (value : Value) : Accepts allowExtra .any value
  | null : Accepts allowExtra .null .null
  | bool (b : Bool) : Accepts allowExtra .bool (.bool b)
  | int (i : Int64) : Accepts allowExtra .int (.int i)
  | float (x : Binary64) : Accepts allowExtra .float (.float x)
  | str (s : String) : Accepts allowExtra .str (.str s)
  | format {format : StringFormat} {s : String} (written : format.accepts s = true) :
      Accepts allowExtra (.format format) (.str s)
  | list {item : TypeExpr} {items : List Value} (each : ∀ v ∈ items, Accepts allowExtra item v) :
      Accepts allowExtra (.list item) (.list items)
  | tuple {types : List TypeExpr} {items : List Value} (length : items.length = types.length)
      (each : ∀ pair ∈ types.zip items, Accepts allowExtra pair.1 pair.2) :
      Accepts allowExtra (.tuple types) (.list items)
  | map {item : TypeExpr} {entries : Entries Value}
      (each : ∀ entry ∈ entries, Accepts allowExtra item entry.2) :
      Accepts allowExtra (.map item) (.map entries)
  | absent {item : TypeExpr} : Accepts allowExtra (.optional item) .null
  | present {item : TypeExpr} {value : Value} (inner : Accepts allowExtra item value) :
      Accepts allowExtra (.optional item) value
  | variant {variants : List TypeExpr} {variant : TypeExpr} {value : Value}
      (member : variant ∈ variants) (inner : Accepts allowExtra variant value) :
      Accepts allowExtra (.union variants) value
  | member {members : List Value} {member value : Value} (listed : member ∈ members)
      (equal : member.Equal value) : Accepts allowExtra (.literal members) value
  /-- A mapping, or a record of the same name: declared fields that are present are accepted,
      others have a default, and undeclared ones are allowed. -/
  | record {name : String} {fields : List (RecordField TypeExpr)} {value : Value}
      {entries : Entries Value} (shape : value = .map entries ∨ value = .record name entries)
      (present : ∀ field ∈ fields, ∀ v, entries.get? field.name = some v →
        Accepts allowExtra field.type v)
      (filled : ∀ field ∈ fields, field.name ∉ entries.keys → field.default.isSome)
      (known : allowExtra = true ∨ ∀ name ∈ entries.keys, name ∈ declaredNames fields) :
      Accepts allowExtra (.record name fields) value

variable {allowExtra : Bool} {whole type item : TypeExpr} {value normal : Value}

/-! ## The strict check -/

/-- A type checks strictly exactly what it accepts. -/
def Decides (allowExtra : Bool) (type : TypeExpr) : Prop :=
  ∀ value, (type.normal? (.strict allowExtra) value).isSome ↔ Accepts allowExtra type value

theorem decides_any : Decides allowExtra .any := by
  intro value
  simp [normal?_any, Accepts.any]

theorem decides_null : Decides allowExtra .null := by
  intro value
  rw [normal?_null]
  constructor
  · intro passed
    cases value <;> simp [Value.isNull] at passed
    exact .null
  · intro accepted
    cases accepted
    rfl

theorem decides_scalar (scalar : type = .bool ∨ type = .int ∨ type = .float ∨ type = .str) :
    Decides allowExtra type := by
  intro value
  rcases scalar with rfl | rfl | rfl | rfl
  all_goals
    simp only [normal?_bool, normal?_int, normal?_float, normal?_str, reduceCtorEq, if_false]
    constructor
    · intro passed
      cases value <;>
        simp [Value.asBool?, Value.asInt?, Value.asFloat?, Value.asStr?] at passed
      constructor
    · intro accepted
      cases accepted
      rfl

theorem decides_format (format : StringFormat) : Decides allowExtra (.format format) := by
  intro value
  rw [Option.isSome_iff_exists]
  constructor
  · intro passed
    obtain ⟨normal, h⟩ := passed
    obtain ⟨-, s, rfl, written⟩ := normal?_format_eq_some_iff.mp h
    exact .format written
  · intro accepted
    cases accepted with
    | format written => exact ⟨_, normal?_format_eq_some_iff.mpr ⟨rfl, _, rfl, written⟩⟩

theorem decides_literal (members : List Value) : Decides allowExtra (.literal members) := by
  intro value
  rw [Option.isSome_iff_exists]
  constructor
  · intro passed
    obtain ⟨normal, h⟩ := passed
    obtain ⟨member, listed, equal⟩ := List.any_eq_true.mp (normal?_literal_eq_some_iff.mp h).2
    exact .member listed equal
  · intro accepted
    cases accepted with
    | member listed equal =>
      refine ⟨value, normal?_literal_eq_some_iff.mpr ⟨rfl, ?_⟩⟩
      exact List.any_eq_true.mpr ⟨_, listed, equal⟩

theorem decides_list (decides : Decides allowExtra item) : Decides allowExtra (.list item) := by
  intro value
  rw [isSome_normal?_list_iff]
  constructor
  · intro passed
    rcases passed with ⟨items, rfl, each⟩
    exact .list fun v member => (decides v).mp (each v member)
  · intro accepted
    cases accepted with
    | list each => exact ⟨_, rfl, fun v member => (decides v).mpr (each v member)⟩

theorem decides_tuple {types : List TypeExpr} (decides : ∀ type ∈ types, Decides allowExtra type) :
    Decides allowExtra (.tuple types) := by
  intro value
  rw [isSome_normal?_tuple_iff]
  have decides' : ∀ items : List Value, ∀ pair ∈ types.zip items,
      (pair.1.normal? (.strict allowExtra) pair.2).isSome ↔ Accepts allowExtra pair.1 pair.2 :=
    fun items pair member => decides pair.1 (List.of_mem_zip member).1 pair.2
  constructor
  · intro passed
    rcases passed with ⟨items, rfl, length, each⟩
    exact .tuple length fun pair member => (decides' items pair member).mp (each pair member)
  · intro accepted
    cases accepted with
    | tuple length each =>
      exact ⟨_, rfl, length, fun pair member => (decides' _ pair member).mpr (each pair member)⟩

theorem decides_map (decides : Decides allowExtra item) : Decides allowExtra (.map item) := by
  intro value
  rw [isSome_normal?_map_iff]
  constructor
  · intro passed
    rcases passed with ⟨entries, read, each⟩
    cases value <;> cases read
    exact .map fun entry member => (decides entry.2).mp (each entry member)
  · intro accepted
    cases accepted with
    | map each => exact ⟨_, rfl, fun entry member => (decides entry.2).mpr (each entry member)⟩

theorem decides_optional (decides : Decides allowExtra item) :
    Decides allowExtra (.optional item) := by
  intro value
  rw [normal?_optional]
  split
  next isNull =>
    cases value <;> cases isNull
    exact iff_of_true rfl .absent
  next isPresent =>
    rw [decides value]
    constructor
    · exact .present
    · intro accepted
      cases accepted with
      | absent => exact absurd rfl isPresent
      | present inner => exact inner

theorem decides_union (plain : Plain whole) {variants : List TypeExpr}
    (inside : (union variants).parts ⊆ whole.parts)
    (decides : ∀ variant ∈ variants, Decides allowExtra variant) :
    Decides allowExtra (.union variants) := by
  intro value
  rw [normal?_union_strict plain inside, List.findSome?_isSome_iff]
  constructor
  · intro passed
    rcases passed with ⟨variant, member, fits⟩
    exact .variant member ((decides variant member value).mp fits)
  · intro accepted
    cases accepted with
    | variant member inner => exact ⟨_, member, (decides _ member value).mpr inner⟩

/-- Strictly, a mapping or a record of the same name is read as a record. -/
theorem recordInput?_strict_eq_some_iff {name : String} {entries : Entries Value} :
    recordInput? .strict name value = some entries ↔
      value = .map entries ∨ value = .record name entries := by
  cases value <;> simp [recordInput?]

theorem decides_record {name : String} {fields : List (RecordField TypeExpr)}
    (decides : ∀ field ∈ fields, Decides allowExtra field.type) :
    Decides allowExtra (.record name fields) := by
  intro value
  have filled : ∀ (entries : Entries Value), ∀ field ∈ fields,
      (fieldNormal? (.strict allowExtra) field entries).isSome ↔
        (∀ v, entries.get? field.name = some v → Accepts allowExtra field.type v) ∧
          (field.name ∉ entries.keys → field.default.isSome) := by
    intro entries field member
    rw [← Entries.get?_eq_none_iff, fieldNormal?]
    cases entries.get? field.name with
    | some v => simp [decides field member v]
    | none => simp
  rw [isSome_normal?_record_iff]
  constructor
  · intro passed
    rcases passed with ⟨entries, read, each, known⟩
    rw [undeclared_eq_nil_iff] at known
    refine .record (recordInput?_strict_eq_some_iff.mp read) ?_ ?_ known
    · exact fun field member => ((filled entries field member).mp (each field member)).1
    · exact fun field member => ((filled entries field member).mp (each field member)).2
  · intro accepted
    cases accepted with
    | @record _ _ _ entries shape present absent known =>
      rw [← undeclared_eq_nil_iff] at known
      refine ⟨entries, recordInput?_strict_eq_some_iff.mpr shape, fun field member => ?_, known⟩
      exact (filled entries field member).mpr ⟨present field member, absent field member⟩

/-- Each part of a plain type checks strictly exactly what it accepts. -/
theorem decides_of_plain (plain : Plain whole) (inside : type.parts ⊆ whole.parts) :
    Decides allowExtra type := by
  induction type using TypeExpr.induction with
  | any => exact decides_any
  | null => exact decides_null
  | bool | int | float | str => exact decides_scalar (by simp)
  | format f => exact decides_format f
  | list item ih => exact decides_list (ih (parts_list_subset inside))
  | tuple types ih =>
    exact decides_tuple fun t member => ih t member (parts_tuple_subset inside member)
  | map item ih => exact decides_map (ih (parts_map_subset inside))
  | optional item ih => exact decides_optional (ih (parts_optional_subset inside))
  | union variants ih =>
    apply decides_union plain inside
    exact fun t member => ih t member (parts_union_subset inside member)
  | literal members => exact decides_literal members
  | record name fields ih =>
    exact decides_record fun field member => ih field member (parts_record_subset inside member)
  | foreign foreignType => exact absurd (mem_of_parts_subset inside) (plain.foreign foreignType)

/-! ## What a check returns -/

/-- A plain type with distinct names in each record type and defaults that pass the strict check
    of their fields. -/
structure Consistent (allowExtra : Bool) (type : TypeExpr) : Prop extends Plain type where
  names : ∀ name fields, .record name fields ∈ type.parts → (declaredNames fields).Nodup
  defaults : ∀ name fields, .record name fields ∈ type.parts → ∀ field ∈ fields,
    ∀ default, field.default = some default →
      ∃ normal, field.type.check (.strict allowExtra) default .empty = .pass normal

/-- A type accepts every normal form that it gives under some rules. -/
def Closed (rules : Rules) (type : TypeExpr) : Prop :=
  ∀ value normal, type.normal? rules value = some normal → Accepts rules.allowExtra type normal

variable {rules : Rules}

theorem closed_any : Closed rules .any := by
  intro value normal h
  exact .any normal

theorem closed_null : Closed rules .null := by
  intro value normal h
  rw [normal?_null, Option.ite_none_right_eq_some, Option.some.injEq] at h
  obtain ⟨-, rfl⟩ := h
  exact .null

/-- A scalar that was converted is of the kind that was asked for. -/
theorem closed_scalar (scalar : type = .bool ∨ type = .int ∨ type = .float ∨ type = .str) :
    Closed rules type := by
  intro value normal h
  have again := (normal?_atom scalar h).1 (.strict rules.allowExtra)
  exact (decides_scalar scalar normal).mp (by simp [again])

theorem closed_format (format : StringFormat) : Closed rules (.format format) := by
  intro value normal h
  obtain ⟨rfl, s, rfl, written⟩ := normal?_format_eq_some_iff.mp h
  exact .format written

theorem closed_literal (members : List Value) : Closed rules (.literal members) := by
  intro value normal h
  obtain ⟨rfl, chosen⟩ := normal?_literal_eq_some_iff.mp h
  obtain ⟨member, listed, equal⟩ := List.any_eq_true.mp chosen
  exact .member listed equal

theorem closed_list (closed : Closed rules item) : Closed rules (.list item) := by
  intro value normal h
  obtain ⟨items, normals, rfl, rfl, each⟩ := normal?_list_eq_some_iff.mp h
  refine .list fun n member => ?_
  obtain ⟨v, -, found⟩ := Entries.exists_mem_of_forall₂ each.flip member
  exact closed v n found

theorem accepts_itemwise {types : List TypeExpr} {items normals : List Value}
    (closed : ∀ type ∈ types, Closed rules type) (itemwise : Itemwise rules types items normals) :
    ∀ pair ∈ types.zip normals, Accepts rules.allowExtra pair.1 pair.2 := by
  induction itemwise with
  | nil => simp
  | cons head _ ih =>
    have ⟨here, later⟩ := List.forall_mem_cons.mp closed
    exact List.forall_mem_cons.mpr ⟨here _ _ head, ih later⟩

theorem closed_tuple {types : List TypeExpr} (closed : ∀ type ∈ types, Closed rules type) :
    Closed rules (.tuple types) := by
  intro value normal h
  obtain ⟨items, normals, rfl, rfl, itemwise⟩ := normal?_tuple_eq_some_iff.mp h
  exact .tuple itemwise.length_normals_eq (accepts_itemwise closed itemwise)

theorem closed_map (closed : Closed rules item) : Closed rules (.map item) := by
  intro value normal h
  obtain ⟨entries, normals, -, rfl, aligned⟩ := normal?_map_eq_some_iff.mp h
  refine .map fun entry member => ?_
  obtain ⟨e, -, -, found⟩ := Entries.exists_mem_of_forall₂ aligned.swap member
  exact closed e.2 entry.2 found

theorem closed_optional (closed : Closed rules item) : Closed rules (.optional item) := by
  intro value normal h
  rw [normal?_optional] at h
  split at h
  · cases h
    exact .absent
  · exact .present (closed value normal h)

theorem closed_union {variants : List TypeExpr}
    (closed : ∀ variant ∈ variants, Closed rules variant) : Closed rules (.union variants) := by
  intro value normal h
  obtain ⟨variant, member, found⟩ := exists_variant_of_normal?_union h
  exact .variant member (closed variant member value normal found)

/-- Each declared field of a record that was filled is accepted by the type of its field. -/
theorem accepts_of_filled {fields : List (RecordField TypeExpr)} {input declared : Entries Value}
    (distinct : (declaredNames fields).Nodup) (filled : Filled rules input fields declared)
    (closed : ∀ field ∈ fields, Closed rules field.type)
    (defaults : ∀ field ∈ fields, ∀ default, field.default = some default →
      Accepts rules.allowExtra field.type default)
    {field : RecordField TypeExpr} (member : field ∈ fields) {v : Value}
    (found : (field.name, v) ∈ declared) : Accepts rules.allowExtra field.type v := by
  obtain ⟨other, member', same, source⟩ := Entries.exists_mem_of_forall₂ filled.flip found
  cases List.inj_on_of_nodup_map distinct member member' same
  rw [fieldNormal?] at source
  split at source
  next w _ => exact closed field member w v source
  next => exact defaults field member v source

theorem closed_record {name : String} {fields : List (RecordField TypeExpr)}
    (distinct : (declaredNames fields).Nodup) (closed : ∀ field ∈ fields, Closed rules field.type)
    (defaults : ∀ field ∈ fields, ∀ default, field.default = some default →
      Accepts rules.allowExtra field.type default) : Closed rules (.record name fields) := by
  intro value normal h
  obtain ⟨input, declared, -, filled, allowed, rfl⟩ := normal?_record_eq_some_iff.mp h
  have names := filled.keys_eq
  refine .record (.inr rfl) (fun field member v found => ?_) (fun field member absent => ?_) ?_
  · have named : field.name ∈ declaredNames fields := List.mem_map_of_mem member
    rcases List.mem_append.mp (Entries.mem_of_get?_merged found) with inside | left
    · exact accepts_of_filled distinct filled closed defaults member inside
    · exact absurd named (mem_undeclared_iff.mp left).2
  · rw [Entries.mem_keys_merged_iff, Entries.keys_append, names] at absent
    exact absurd (List.mem_append_left _ (List.mem_map_of_mem member)) absent
  · refine allowed.imp_right fun none name member => ?_
    rwa [none, List.append_nil, Entries.mem_keys_merged_iff, names] at member

/-- Each part of a consistent type accepts the normal forms that it gives in either mode. -/
theorem closed_of_consistent {mode : Mode} (consistent : Consistent allowExtra whole)
    (inside : type.parts ⊆ whole.parts) : Closed ⟨mode, allowExtra⟩ type := by
  have plain := consistent.toPlain
  induction type using TypeExpr.induction with
  | any => exact closed_any
  | null => exact closed_null
  | bool | int | float | str => exact closed_scalar (by simp)
  | format f => exact closed_format f
  | list item ih => exact closed_list (ih (parts_list_subset inside))
  | tuple types ih =>
    exact closed_tuple fun t member => ih t member (parts_tuple_subset inside member)
  | map item ih => exact closed_map (ih (parts_map_subset inside))
  | optional item ih => exact closed_optional (ih (parts_optional_subset inside))
  | union variants ih =>
    exact closed_union fun t member => ih t member (parts_union_subset inside member)
  | literal members => exact closed_literal members
  | record name fields ih =>
    have here := mem_of_parts_subset inside
    apply closed_record (consistent.names name fields here)
    · exact fun field member => ih field member (parts_record_subset inside member)
    · intro field member default given
      obtain ⟨normal, passed⟩ := consistent.defaults name fields here field member default given
      refine (decides_of_plain plain (parts_record_subset inside member) default).mp ?_
      exact Option.isSome_iff_exists.mpr ⟨normal, check_eq_pass_iff.mp passed⟩
  | foreign foreignType => exact absurd (mem_of_parts_subset inside) (plain.foreign foreignType)

/-- What a check in either mode returns passes the strict check. -/
theorem check_strict_of_pass {mode : Mode} {path path' : Path}
    (consistent : Consistent allowExtra type)
    (passed : type.check ⟨mode, allowExtra⟩ value path = .pass normal) :
    ∃ again, type.check (.strict allowExtra) normal path' = .pass again := by
  have whole : type.parts ⊆ type.parts := fun _ inside => inside
  have accepted := closed_of_consistent consistent whole value normal (check_eq_pass_iff.mp passed)
  have fits := (decides_of_plain consistent.toPlain whole normal).mpr accepted
  obtain ⟨again, found⟩ := Option.isSome_iff_exists.mp fits
  exact ⟨again, check_eq_pass_iff.mpr found⟩

/-- A list of floats, or a record whose second field may be left out. -/
def readingsOrSensor : TypeExpr :=
  .union [.list .float,
    .record "Sensor" [⟨"label", .str, none⟩, ⟨"unit", .optional .str, some .null⟩]]

theorem consistent_readingsOrSensor : Consistent false readingsOrSensor where
  foreign := by simp [readingsOrSensor, parts, partsAll, partsFields]
  union := by simp [readingsOrSensor, parts, partsAll, partsFields]
  literal := by simp [readingsOrSensor, parts, partsAll, partsFields]
  names := by simp [readingsOrSensor, parts, partsAll, partsFields]
  defaults name fields inside field member default given := by
    simp only [readingsOrSensor, parts, partsAll, partsFields, List.append_nil, List.cons_append,
      List.nil_append, List.mem_cons, record.injEq, reduceCtorEq, List.not_mem_nil, or_false,
      false_or] at inside
    rw [inside.2] at member
    rcases List.mem_cons.mp member with rfl | last
    · cases given
    · rw [List.mem_singleton.mp last] at given ⊢
      cases given
      exact ⟨.null, rfl⟩

/-- A record of another name whose label is a number becomes a sensor, which passes strictly. -/
theorem check_strict_of_pass_sensor :
    readingsOrSensor.check (.lax false) (.record "Probe" [("label", .int 7)]) .empty =
        .pass (.record "Sensor" [("label", .str "7"), ("unit", .null)]) ∧
      ∃ again, readingsOrSensor.check (.strict false)
        (.record "Sensor" [("label", .str "7"), ("unit", .null)]) .empty = .pass again := by
  have passed : readingsOrSensor.check (.lax false) (.record "Probe" [("label", .int 7)]) .empty =
      .pass (.record "Sensor" [("label", .str "7"), ("unit", .null)]) := by rfl
  exact ⟨passed, check_strict_of_pass consistent_readingsOrSensor passed⟩

end TypeExpr

namespace Schema

variable {types : FieldTypes} {values : Values} {options : Options} {replace : Bool}

/-- Types and values have the same names, and each type accepts the value of its name. -/
structure Accepts (allowExtra : Bool) (types : FieldTypes) (values : Values) : Prop where
  names : ∀ name, name ∈ types.keys ↔ name ∈ values.keys
  each : ∀ name type value, types.get? name = some type → values.get? name = some value →
    type.Accepts allowExtra value

/-- Values conform strictly to plain types exactly if the types accept them. -/
theorem conforms_strict_iff {allowExtra : Bool}
    (plain : ∀ name type, types.get? name = some type → type.Plain) :
    Conforms (.strict allowExtra) types values ↔ Accepts allowExtra types values := by
  have decides : ∀ name type, types.get? name = some type → type.Decides allowExtra :=
    fun name type typed => TypeExpr.decides_of_plain (plain name type typed) fun _ inside => inside
  constructor
  · intro conforms
    refine ⟨fun name => ⟨fun named => ?_, conforms.expected name⟩, ?_⟩
    · obtain ⟨type, typed⟩ := Option.isSome_iff_exists.mp (OrderedMap.isSome_get?_iff.mpr named)
      obtain ⟨value, found, -⟩ := conforms.fits name type typed
      exact OrderedMap.isSome_get?_iff.mp (by simp [found])
    · intro name type value typed found
      obtain ⟨other, found', fits⟩ := conforms.fits name type typed
      cases found.symm.trans found'
      exact (decides name type typed value).mp fits
  · intro accepted
    refine ⟨fun name type typed => ?_, fun name => (accepted.names name).mpr⟩
    have named := (accepted.names name).mp (OrderedMap.isSome_get?_iff.mp (by simp [typed]))
    obtain ⟨value, found⟩ := Option.isSome_iff_exists.mp (OrderedMap.isSome_get?_iff.mpr named)
    exact ⟨value, found, (decides name type typed value).mpr (accepted.each _ _ _ typed found)⟩

/-- Plain types are never at fault. -/
theorem lastFault?_verdicts {rules : Rules}
    (plain : ∀ name type, types.get? name = some type → type.Plain) :
    lastFault? (verdicts rules types values).entries = none := by
  rw [lastFault?_eq_none_iff, forall_verdicts_iff (p := fun verdict => verdict.fault? = none)]
  intro name type typed
  rw [verdictAt]
  split
  · exact TypeExpr.fault?_check (plain name type typed) (fun _ inside => inside) _ _ _
  · rfl

/-- Strict validation against plain types succeeds exactly on values that the types accept, and
    reports at least one issue on all others. -/
theorem validate_strict_iff (plain : ∀ name type, types.get? name = some type → type.Plain) :
    ((∃ replacements?, validate .strict types values replace options = .ok replacements?) ↔
      Accepts (allowsExtra options) types values) ∧
    ((∃ issues, issues ≠ [] ∧
        validate .strict types values replace options = .error (.invalid issues)) ↔
      ¬ Accepts (allowsExtra options) types values) := by
  have faultless :
      lastFault? (verdicts (.strict (allowsExtra options)) types values).entries = none :=
    lastFault?_verdicts plain
  rw [← conforms_strict_iff plain]
  constructor
  · constructor
    · intro passed
      rcases passed with ⟨replacements?, passed⟩
      exact (validate_eq_ok_iff.mp passed).1
    · intro conforms
      exact ⟨_, validate_eq_ok_iff.mpr ⟨conforms, rfl⟩⟩
  · rw [conforms_iff, validate, faultless]
    by_cases clean : issues (.strict (allowsExtra options)) types values = []
    · simp [clean]
    · simp [clean]

/-- A mapping with a text for its label is a sensor, one with a number for it is not. -/
theorem validate_strict_iff_sensor :
    (∃ replacements?, validate .strict (.ofList [("s", TypeExpr.readingsOrSensor)])
      (.ofList [("s", .map [("label", .str "door")])]) true .empty = .ok replacements?) ∧
    ∃ issues, issues ≠ [] ∧ validate .strict (.ofList [("s", TypeExpr.readingsOrSensor)])
      (.ofList [("s", .map [("label", .int 7)])]) true .empty = .error (.invalid issues) := by
  have plain : ∀ name type, (OrderedMap.ofList [("s", TypeExpr.readingsOrSensor)]).get? name =
      some type → type.Plain := by
    intro name type typed
    rw [← OrderedMap.eq_of_get?_ofList_singleton typed]
    exact TypeExpr.consistent_readingsOrSensor.toPlain
  constructor
  · refine (validate_strict_iff plain).1.mpr
      ⟨fun name => Iff.rfl, fun name type value typed found => ?_⟩
    rw [← OrderedMap.eq_of_get?_ofList_singleton typed,
      ← OrderedMap.eq_of_get?_ofList_singleton found]
    refine .variant (List.mem_cons_of_mem _ List.mem_cons_self) (.record (.inl rfl) ?_ ?_ ?_)
    · simp only [List.forall_mem_cons, List.not_mem_nil, false_implies, implies_true, and_true]
      refine ⟨fun v found => ?_, fun v found => ?_⟩
      · cases found
        exact .str _
      · cases found
    · simp
    · simp [TypeExpr.declaredNames]
  · refine (validate_strict_iff plain).2.mpr fun accepted => ?_
    cases accepted.each "s" _ _ rfl rfl with
    | variant member inner =>
      simp only [List.mem_cons, List.not_mem_nil, or_false] at member
      rcases member with rfl | rfl
      · cases inner
      · cases inner with
        | record shape present =>
          simp only [Value.map.injEq, reduceCtorEq, or_false] at shape
          subst shape
          cases present ⟨"label", .str, none⟩ (by simp) (.int 7) rfl

end Schema

end CallGuard
