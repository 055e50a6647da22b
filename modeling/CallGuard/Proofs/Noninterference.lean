import CallGuard.Guard
import CallGuard.Proofs.Rewriting
import CallGuard.Proofs.Supply

/-!
# Arguments that are not checked

Two calls of one shape may differ in the arguments of parameters that a guard does not check.  It
then refuses both with the same error or lets both pass, and what it passes on differs in such
arguments only.  Binding reads nothing but the shape of a call, what is checked is the same in both
calls, and a replacement, whatever it is, is written to the same places of both.
-/

namespace CallGuard

/-- Two computations fail with the same error, or succeed with related results. -/
inductive Alike {ε α β : Type} (rel : α → β → Prop) : Except ε α → Except ε β → Prop
  | error (error : ε) : Alike rel (.error error) (.error error)
  | ok {a : α} {b : β} (related : rel a b) : Alike rel (.ok a) (.ok b)

/-- Calls of one shape: as many positional arguments, and the same keywords in the same order. -/
structure CallArguments.SameShape (call other : CallArguments) : Prop where
  length : call.positional.length = other.positional.length
  names : call.keyword.keys = other.keyword.keys

theorem CallArguments.SameShape.symm {call other : CallArguments} (shape : call.SameShape other) :
    other.SameShape call := ⟨shape.length.symm, shape.names.symm⟩

namespace Entries

variable {α : Type}

/-- Entries with the same names can be split at the same place. -/
theorem exists_split_of_keys_eq {es fs before after : Entries α} {entry : String × α}
    (names : keys es = keys fs) (split : es = before ++ entry :: after) :
    ∃ before' entry' after', fs = before' ++ entry' :: after' ∧ keys before' = keys before ∧
      entry'.1 = entry.1 := by
  subst split
  rw [keys_append, keys_cons] at names
  obtain ⟨before', rest, rfl, front, back⟩ := List.map_eq_append_iff.mp names.symm
  obtain ⟨entry', after', rfl, here, -⟩ := List.map_eq_cons_iff.mp back
  exact ⟨before', entry', after', rfl, front, here⟩

/-- Which names there are after writing depends on the names before. -/
theorem keys_putAll_congr {es fs : Entries α} (names : keys es = keys fs) (updates : Entries α) :
    keys (es.putAll updates) = keys (fs.putAll updates) := by
  induction updates generalizing es fs with
  | nil => exact names
  | cons pair rest ih =>
    rw [putAll_cons, putAll_cons]
    apply ih
    rw [keys_put, keys_put, names]

end Entries

namespace Signature

variable {sig : Signature} {call other : CallArguments} {p : Parameter} {name : String}
  {error : BindError}

/-! ## Binding reads the shape of a call -/

theorem fillsSlot_congr (shape : call.SameShape other) :
    sig.FillsSlot call p ↔ sig.FillsSlot other p := by
  simp only [FillsSlot, shape.length]

theorem has_congr (shape : call.SameShape other) : sig.Has call p ↔ sig.Has other p := by
  simp only [Has, fillsSlot_congr shape, shape.names]

theorem takesKeyword_congr (shape : call.SameShape other) :
    sig.TakesKeyword call name ↔ sig.TakesKeyword other name := by
  rw [takesKeyword_iff, takesKeyword_iff, slotValue?_eq_none_congr shape.length]

theorem KeywordRefusal.of_sameShape (shape : call.SameShape other)
    (refused : sig.KeywordRefusal call name error) : sig.KeywordRefusal other name error := by
  cases refused with
  | filled member same kind filled =>
    exact .filled member same kind ((fillsSlot_congr shape).mp filled)
  | positionalOnly member same kind uncollected =>
    exact .positionalOnly member same kind uncollected
  | unknown unknown uncollected => exact .unknown unknown uncollected

/-- A call is refused for what any call of its shape is refused for. -/
theorem Refusal.of_sameShape (shape : call.SameShape other) (refusal : sig.Refusal call error) :
    sig.Refusal other error := by
  have length := shape.length
  cases refusal with
  | positional longer noTail =>
    rw [length] at longer ⊢
    exact .positional longer noTail
  | @keyword before after argument _ room split earlier refused =>
    obtain ⟨before', argument', after', split', names, same⟩ :=
      Entries.exists_split_of_keys_eq shape.names split
    refine .keyword (length ▸ room) split' (fun entry inside => ?_) ?_
    · have named : entry.1 ∈ Entries.keys before := names ▸ List.mem_map_of_mem inside
      obtain ⟨entry', inside', same'⟩ := List.mem_map.mp named
      exact (takesKeyword_congr shape).mp (same' ▸ earlier entry' inside')
    · rw [same]
      exact refused.of_sameShape shape
  | missing room takes split earlier required absent =>
    refine .missing (length ▸ room) (fun name named => ?_) split (fun q inside needed => ?_)
      required fun has => absent ((has_congr shape).mpr has)
    · exact (takesKeyword_congr shape).mp (takes name (shape.names ▸ named))
    · exact (has_congr shape).mp (earlier q inside needed)

/-- Calls of one shape both bind, or fail to bind for the same error. -/
theorem alike_bind (shape : call.SameShape other) :
    Alike (fun _ _ => True) (sig.bind call) (sig.bind other) := by
  cases first : sig.bind call with
  | error error =>
    have refusal := bind_eq_error_iff.mp first
    rw [bind_eq_error_iff.mpr (refusal.of_sameShape shape)]
    exact .error error
  | ok bound =>
    cases second : sig.bind other with
    | error error =>
      have refusal := bind_eq_error_iff.mp second
      rw [bind_eq_error_iff.mpr (refusal.of_sameShape shape.symm)] at first
      cases first
    | ok bound' => exact .ok trivial

/-! ## Calls that agree -/

/-- A positional argument goes to the parameter of its slot, or behind the slots to the variadic
    one. -/
def PositionalGoesTo (sig : Signature) (index : Nat) (p : Parameter) : Prop :=
  sig.positional[index]? = some p ∨
    p ∈ sig.parameters ∧ p.kind = .varPositional ∧ sig.positionalCount ≤ index

/-- A keyword argument goes to the parameter of its name if that takes keywords, or with the
    surplus to the variadic one. -/
def KeywordGoesTo (sig : Signature) (name : String) (p : Parameter) : Prop :=
  p ∈ sig.parameters ∧
    (p.name = name ∧ (p.kind = .positionalOrKeyword ∨ p.kind = .keywordOnly) ∨
      p.kind = .varKeyword ∧ ¬ sig.NamesKeyword name)

/-- Calls of one shape whose arguments are the same, except those that go to hidden parameters. -/
structure AgreeOutside (sig : Signature) (hidden : Parameter → Prop) (call other : CallArguments) :
    Prop extends call.SameShape other where
  positional : ∀ index, (∀ p, sig.PositionalGoesTo index p → ¬ hidden p) →
    call.positional[index]? = other.positional[index]?
  keyword : ∀ name, (∀ p, sig.KeywordGoesTo name p → ¬ hidden p) →
    call.keyword.get? name = other.keyword.get? name

variable {hidden : Parameter → Prop} {value : Value}

/-- Calls that agree supply the same for a parameter that is not hidden. -/
theorem AgreeOutside.supplied?_eq (agree : sig.AgreeOutside hidden call other)
    (member : p ∈ sig.parameters) (visible : ¬ hidden p) :
    sig.supplied? call p = sig.supplied? other p := by
  have beyond : ∀ index, sig.positionalCount ≤ index → sig.positional[index]? = none :=
    fun index outside => List.getElem?_eq_none outside
  refine supplied?_congr member ?_ (fun named => ?_) (fun kind => ?_) fun kind => ?_
  · cases position : sig.position? p.name with
    | none => simp only [slotValue?, position, Option.bind_none]
    | some slot =>
      simp only [slotValue?, position, Option.bind_some]
      refine agree.positional slot fun q goes => ?_
      rcases goes with place | ⟨-, -, outside⟩
      · have place' := position?_eq_some_iff.mpr ⟨q, place, rfl⟩
        have inside := (mem_positional_iff.mp (List.mem_of_getElem? place)).1
        rwa [eq_of_name_eq inside member (position?_injective place' position)]
      · exact absurd (position?_lt position) (Nat.not_lt.mpr outside)
  · refine agree.keyword p.name fun q goes => ?_
    rcases goes with ⟨inside, ⟨same, -⟩ | ⟨-, unnamed⟩⟩
    · rwa [eq_of_name_eq inside member same]
    · exact absurd (isSurplus_eq_false_iff.mp named) unnamed
  · refine List.ext_getElem? fun i => ?_
    rw [surplusPositional, surplusPositional, List.getElem?_drop, List.getElem?_drop]
    refine agree.positional _ fun q goes => ?_
    rcases goes with place | ⟨inside, kind', -⟩
    · simp [beyond (sig.positionalCount + i) (Nat.le_add_right _ _)] at place
    · rwa [eq_of_varPositional inside member kind' kind]
  · refine Entries.ext_of_get? ?_ (keys_surplusKeyword_congr agree.names) fun name inside => ?_
    · exact (List.filter_sublist.map Prod.fst).nodup call.keyword.nodup
    · rw [surplusKeyword, Entries.keys_filter sig.isSurplus, List.mem_filter] at inside
      have unnamed : ¬ sig.NamesKeyword name := by simpa [isSurplus_eq] using inside.2
      rw [get?_surplusKeyword inside.2, get?_surplusKeyword inside.2]
      refine agree.keyword name fun q goes => ?_
      rcases goes with ⟨inside', ⟨same, kind'⟩ | ⟨kind', -⟩⟩
      · exact absurd ⟨q, inside', same, kind'⟩ unnamed
      · rwa [eq_of_varKeyword inside' member kind' kind]

/-! ## Replacements are written alike -/

/-- Keywords are written to the same places of calls that agree. -/
theorem AgreeOutside.insertAll (agree : sig.AgreeOutside hidden call other)
    (entries : Entries Value) : sig.AgreeOutside hidden
      { call with keyword := call.keyword.insertAll entries }
      { other with keyword := other.keyword.insertAll entries } where
  length := agree.length
  names := Entries.keys_putAll_congr agree.names entries
  positional := agree.positional
  keyword name visible := by
    have same := agree.keyword name visible
    simp only [OrderedMap.get?, OrderedMap.insertAll] at same ⊢
    rw [Entries.get?_putAll, Entries.get?_putAll, same]

/-- A slot is written alike in calls that agree. -/
theorem AgreeOutside.set (agree : sig.AgreeOutside hidden call other) (slot : Nat)
    (value : Value) : sig.AgreeOutside hidden
      { call with positional := call.positional.set slot value }
      { other with positional := other.positional.set slot value } where
  length := by simpa using agree.length
  names := agree.names
  positional index visible := by
    have same := agree.positional index visible
    simp only [List.getElem?_set, agree.length, same]
  keyword := agree.keyword

/-- A tail is put behind as many arguments of calls that agree. -/
theorem AgreeOutside.tail (agree : sig.AgreeOutside hidden call other) (count : Nat)
    (items : List Value) : sig.AgreeOutside hidden
      { call with positional := call.positional.take count ++ items }
      { other with positional := other.positional.take count ++ items } where
  length := by simp [agree.length]
  names := agree.names
  positional index visible := by
    have same := agree.positional index visible
    simp only [List.getElem?_append, List.length_take, List.getElem?_take, agree.length, same]
  keyword := agree.keyword

theorem AgreeOutside.alike_replaceSlot (agree : sig.AgreeOutside hidden call other)
    (name : String) (value : Value) : Alike (sig.AgreeOutside hidden)
      (call.replaceSlot sig name value) (other.replaceSlot sig name value) := by
  unfold CallArguments.replaceSlot
  cases sig.position? name with
  | none => exact .error _
  | some slot =>
    simp only [agree.length]
    split
    · exact .ok (agree.set slot value)
    · exact .error _

/-- A replacement is written to the same place of calls that agree, or ignored for the same
    reason. -/
theorem AgreeOutside.alike_replace (agree : sig.AgreeOutside hidden call other) (name : String)
    (value : Value) : Alike (sig.AgreeOutside hidden) (call.replace sig name value)
      (other.replace sig name value) := by
  have contains : call.keyword.contains name = other.keyword.contains name := by
    rw [Bool.eq_iff_iff, OrderedMap.contains_iff, OrderedMap.contains_iff, agree.names]
  have written : sig.AgreeOutside hidden (call.setKeyword name value)
      (other.setKeyword name value) := agree.insertAll [(name, value)]
  unfold CallArguments.replace
  rcases (sig.parameter? name).map Parameter.kind with _ | kind
  · exact .error _
  cases kind with
  | positionalOnly => exact agree.alike_replaceSlot name value
  | positionalOrKeyword =>
    simp only [contains]
    split
    · exact .ok written
    · exact agree.alike_replaceSlot name value
  | keywordOnly =>
    simp only [contains]
    split
    · exact .ok written
    · exact .error _
  | varPositional =>
    cases value.asList? with
    | some items => exact .ok (agree.tail sig.positionalCount items)
    | none => exact .error _
  | varKeyword =>
    cases value.entries? with
    | some entries => exact .ok (agree.insertAll entries)
    | none => exact .error _

/-- Calls that agree still do after replacements, and the same ones are ignored. -/
theorem AgreeOutside.replaceAll (agree : sig.AgreeOutside hidden call other)
    (replacements : Entries Value) :
    sig.AgreeOutside hidden (call.replaceAll sig replacements).1
        (other.replaceAll sig replacements).1 ∧
      (call.replaceAll sig replacements).2 = (other.replaceAll sig replacements).2 := by
  unfold CallArguments.replaceAll
  refine List.foldl_rel (r := fun reached reached' : CallArguments × List (String × IgnoreReason) =>
    sig.AgreeOutside hidden reached.1 reached'.1 ∧ reached.2 = reached'.2) ⟨agree, rfl⟩ ?_
  rintro ⟨name, value⟩ - ⟨call, ignored⟩ ⟨other, _⟩ ⟨agree, rfl⟩
  have alike := agree.alike_replace name value
  dsimp only
  cases first : call.replace sig name value <;> cases second : other.replace sig name value <;>
    rw [first, second] at alike <;> cases alike
  case error.error.error reason => exact ⟨agree, rfl⟩
  case ok.ok.ok next next' agree' => exact ⟨agree', rfl⟩

end Signature

/-! ## The stage before the call -/

namespace Guard

variable {guard : Guard} {call other : CallArguments}

/-- A parameter that a guard does not check: one without a type, or one that is not selected. -/
def Unchecked (guard : Guard) (p : Parameter) : Prop :=
  p.type = none ∨ guard.selection.includes p.name = false

/-- What is checked of the argument of a parameter. -/
def checkedField? (guard : Guard) (call : CallArguments) (p : Parameter) : Option Field :=
  (p.boundType?.filter fun _ => guard.selection.includes p.name).bind fun type =>
    (guard.signature.supplied? call p).map fun value => ⟨p.name, value, type⟩

theorem checkedField?_eq_none_of_unchecked {p : Parameter} (unchecked : guard.Unchecked p) :
    guard.checkedField? call p = none := by
  rcases unchecked with untyped | unselected
  · simp [checkedField?, Parameter.boundType?, untyped]
  · simp [checkedField?, unselected]

/-- The selected fields of a call that binds, parameter by parameter. -/
theorem select_fields_eq {fields : List Field}
    (extracted : guard.signature.fields call = .ok fields) :
    guard.selection.select fields =
      guard.signature.parameters.filterMap (guard.checkedField? call) := by
  unfold Signature.fields at extracted
  cases binds : guard.signature.bind call with
  | error error =>
    rw [binds] at extracted
    cases extracted
  | ok bound =>
    rw [binds] at extracted
    cases extracted
    dsimp only
    rw [(Signature.bind_eq_ok_iff.mp binds).2, Signature.arguments, Selection.select,
      List.filterMap_filterMap, List.filter_filterMap]
    refine List.filterMap_congr fun p member => ?_
    cases supplied : guard.signature.supplied? call p <;> cases typed : p.boundType? <;>
      cases included : guard.selection.includes p.name <;>
      simp [checkedField?, Signature.parameter?_of_mem member, supplied, typed, included,
        Option.filter]

/-- The selected fields of calls that agree are the same. -/
theorem alike_fields (agree : guard.signature.AgreeOutside guard.Unchecked call other) :
    Alike (fun fields fields' => guard.selection.select fields = guard.selection.select fields')
      (guard.signature.fields call) (guard.signature.fields other) := by
  have alike : Alike (fun _ _ => True) (guard.signature.bind call) (guard.signature.bind other) :=
    Signature.alike_bind agree.toSameShape
  cases first : guard.signature.bind call <;> cases second : guard.signature.bind other <;>
    rw [first, second] at alike <;> cases alike
  case error.error.error error =>
    rw [Signature.fields, Signature.fields, first, second]
    exact .error error
  case ok.ok.ok =>
    obtain ⟨fields, extracted⟩ : ∃ fields, guard.signature.fields call = .ok fields :=
      ⟨_, by rw [Signature.fields, first]; rfl⟩
    obtain ⟨fields', extracted'⟩ : ∃ fields, guard.signature.fields other = .ok fields :=
      ⟨_, by rw [Signature.fields, second]; rfl⟩
    rw [extracted, extracted']
    refine .ok ?_
    rw [select_fields_eq extracted, select_fields_eq extracted']
    refine List.filterMap_congr fun p member => ?_
    by_cases unchecked : guard.Unchecked p
    · rw [checkedField?_eq_none_of_unchecked unchecked,
        checkedField?_eq_none_of_unchecked unchecked]
    · rw [checkedField?, checkedField?, agree.supplied?_eq member unchecked]

/-- The checks of selected fields come to the same for calls that agree. -/
theorem alike_validateFields (agree : guard.signature.AgreeOutside guard.Unchecked call other)
    (selected : List Field) : Alike (guard.signature.AgreeOutside guard.Unchecked)
        (guard.validateFields call selected).outcome
        (guard.validateFields other selected).outcome ∧
      (guard.validateFields call selected).events =
        (guard.validateFields other selected).events := by
  simp only [validateFields]
  rcases (guard.settings.validate selected guard.settings.replaceArguments .arguments).outcome with
    error | replacements?
  · exact ⟨.error error, rfl⟩
  cases replacements? with
  | none => exact ⟨.ok agree, rfl⟩
  | some replacements =>
    obtain ⟨agree', ignored⟩ := agree.replaceAll replacements.entries
    exact ⟨.ok agree', by simp only [ignored]⟩

/-- A guard treats calls that differ only in arguments it does not check alike, whatever its
    validator: both fail with the same error, or what it passes on differs only in such arguments.
    The log is the same. -/
theorem before_agree (agree : guard.signature.AgreeOutside guard.Unchecked call other) :
    Alike (guard.signature.AgreeOutside guard.Unchecked) (guard.before call).outcome
        (guard.before other).outcome ∧
      (guard.before call).events = (guard.before other).events := by
  have alike := alike_fields agree
  simp only [before]
  cases first : guard.signature.fields call <;> cases second : guard.signature.fields other <;>
    rw [first, second] at alike <;> cases alike
  case error.error.error error => exact ⟨.error _, rfl⟩
  case ok.ok.ok fields fields' same =>
    simp only [same]
    split
    · exact ⟨.ok agree, rfl⟩
    · exact alike_validateFields agree _

/-- A guard whose validator answers with a round amount and a new label.  The memo has no type and
    labels are not selected. -/
def rounding : Guard where
  signature := {
    parameters := [⟨"amount", .positionalOrKeyword, some .int, none⟩,
      ⟨"memo", .positionalOrKeyword, none, none⟩, ⟨"labels", .varKeyword, some .str, none⟩]
    returns := none
    orderly := by decide }
  selection := .except ["labels"]
  settings := .ofValidator (.custom fun _ _ _ _ =>
    .ok (some (.ofList [("amount", .int 100), ("labels", .map [("new", .null)])])))

/-- Calls with different memos and labels are passed on with the same amount and new label. -/
theorem before_agree_rounding :
    let call : CallArguments := ⟨[.int 98, .str "rent"], .ofList [("color", .str "red")]⟩
    let other : CallArguments := ⟨[.int 98, .str "food"], .ofList [("color", .int 7)]⟩
    let next : CallArguments :=
      ⟨[.int 100, .str "food"], .ofList [("color", .int 7), ("new", .null)]⟩
    rounding.signature.AgreeOutside rounding.Unchecked call other ∧
      (rounding.before other).outcome = .ok next ∧
      Alike (rounding.signature.AgreeOutside rounding.Unchecked) (rounding.before call).outcome
        (rounding.before other).outcome ∧
      (rounding.before call).events = (rounding.before other).events := by
  intro call other next
  have agree : rounding.signature.AgreeOutside rounding.Unchecked call other := by
    refine ⟨⟨rfl, rfl⟩, fun index visible => ?_, fun name visible => ?_⟩
    · match index with
      | 0 => rfl
      | 1 => exact absurd (.inl rfl) (visible ⟨"memo", .positionalOrKeyword, none, none⟩ (.inl rfl))
      | index + 2 => rfl
    · by_cases same : name = "color"
      · subst same
        refine absurd (.inr rfl) (visible ⟨"labels", .varKeyword, some .str, none⟩ ⟨?_, .inr ?_⟩)
        · simp [rounding]
        · exact ⟨rfl, by decide⟩
      · rw [OrderedMap.get?_eq_none_iff.mpr, OrderedMap.get?_eq_none_iff.mpr] <;>
          exact fun named => same (List.mem_singleton.mp named)
  exact ⟨agree, rfl, before_agree agree⟩

end Guard

end CallGuard
