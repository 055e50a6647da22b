import CallGuard.Proofs.Binding
import Mathlib.Data.List.Perm.Basic

/-!
# Where arguments go

When a call binds, to what, and otherwise why not, told from the declared parameters and the
arguments alone.  A call binds exactly if there is room for its positional arguments, every
keyword has a place and nothing required is missing; then every argument is received once.
-/

namespace CallGuard

namespace Entries

variable {α : Type}

/-- Reading distinct entries at distinct names, all of theirs among them, gives each value once. -/
theorem flatMap_get?_perm {es : Entries α} {names : List String} (distinct : names.Nodup)
    (distinct' : (keys es).Nodup) (named : ∀ name ∈ keys es, name ∈ names) :
    (names.flatMap fun name => (get? es name).toList).Perm (es.map Prod.snd) := by
  have pairs : (names.filterMap fun name => (get? es name).map fun v => (name, v)).Perm es := by
    refine (List.perm_ext_iff_of_nodup ?_ (.of_map Prod.fst distinct')).mpr ?_
    · refine List.Nodup.filterMap (fun name name' pair found found' => ?_) distinct
      obtain ⟨_, -, rfl⟩ := Option.map_eq_some_iff.mp found
      obtain ⟨_, -, same⟩ := Option.map_eq_some_iff.mp found'
      exact (Prod.mk.inj same).1.symm
    · rintro ⟨name, v⟩
      rw [List.mem_filterMap]
      constructor
      · intro read
        rcases read with ⟨name', -, found⟩
        obtain ⟨_, found, ⟨⟩⟩ := Option.map_eq_some_iff.mp found
        exact mem_of_get? found
      · intro member
        exact ⟨name, named name (mem_keys_of_mem member), by simp [get?_of_mem distinct' member]⟩
  have values := pairs.map Prod.snd
  rw [List.map_filterMap, List.filterMap_eq_flatMap_toList] at values
  simpa [Option.map_map, Function.comp_def] using values

end Entries

/-- Side by side with a longer list stands what is left of it after cutting. -/
theorem map_zip_eq_take {α β : Type} (names : List α) (values : List β) :
    (names.zip values).map Prod.fst = names.take values.length ∧
      (names.zip values).map Prod.snd = values.take names.length := by
  induction names generalizing values with
  | nil => simp
  | cons name rest ih => cases values <;> simp [ih]

theorem perm_append_swap {α : Type} (as bs cs ds : List α) :
    (as ++ bs ++ (cs ++ ds)).Perm (as ++ cs ++ (ds ++ bs)) := by
  have swapped : (bs ++ (cs ++ ds)).Perm (cs ++ ds ++ bs) := List.perm_append_comm
  simpa only [List.append_assoc] using swapped.append_left as

/-- A run of steps fails where the first of them fails that is reached. -/
theorem foldlM_eq_error_iff {ε α β : Type} {step : β → α → Except ε β} {start : β}
    {items : List α} {error : ε} : items.foldlM step start = .error error ↔
      ∃ before item after reached, items = before ++ item :: after ∧
        before.foldlM step start = .ok reached ∧ step reached item = .error error := by
  induction items generalizing start with
  | nil => simp [pure, Except.pure]
  | cons first rest ih =>
    rw [List.foldlM_cons]
    cases moved : step start first with
    | error other =>
      change Except.error other = Except.error error ↔ _
      constructor
      · intro same
        cases same
        exact ⟨[], first, rest, start, rfl, rfl, moved⟩
      · intro failed
        rcases failed with ⟨before, item, after, reached, split, ran, failed⟩
        cases before with
        | nil =>
          cases split
          cases ran
          rw [← moved, failed]
        | cons other' before =>
          cases split
          obtain ⟨next, moved', -⟩ := Signature.bind_eq_ok_iff_exists.mp ran
          rw [moved] at moved'
          cases moved'
    | ok next =>
      change rest.foldlM step next = .error error ↔ _
      rw [ih]
      constructor
      · intro failed
        rcases failed with ⟨before, item, after, reached, rfl, ran, failed⟩
        refine ⟨first :: before, item, after, reached, rfl, ?_, failed⟩
        exact Signature.bind_eq_ok_iff_exists.mpr ⟨next, moved, ran⟩
      · intro failed
        rcases failed with ⟨before, item, after, reached, split, ran, failed⟩
        cases before with
        | nil =>
          cases split
          cases ran
          rw [moved] at failed
          cases failed
        | cons other before =>
          cases split
          obtain ⟨next', moved', ran⟩ := Signature.bind_eq_ok_iff_exists.mp ran
          cases moved.symm.trans moved'
          exact ⟨before, item, after, reached, rfl, ran, failed⟩

/-- No kind of parameter both takes one positional argument and collects surplus ones. -/
theorem ParameterKind.isVariadic_of_isPositional {kind : ParameterKind}
    (positional : kind.isPositional = true) : kind.isVariadic = false := by
  cases kind <;> simp [isPositional, isVariadic] at positional ⊢

/-- The arguments that a parameter of a kind was bound to: the items of a tail, the values of
    surplus keywords, otherwise the value itself. -/
def ParameterKind.collected : ParameterKind → Value → List Value
  | .varPositional, .list items => items
  | .varKeyword, .map entries => entries.map Prod.snd
  | _, value => [value]

namespace Signature

variable {sig : Signature} {call : CallArguments} {p : Parameter} {name : String}
  {value : Value} {error : BindError}

/-! ## Places for arguments -/

/-- A positional argument of the call fills the slot of a parameter. -/
def FillsSlot (sig : Signature) (call : CallArguments) (p : Parameter) : Prop :=
  ∃ slot, sig.positional[slot]? = some p ∧ slot < call.positional.length

/-- A name of a parameter that takes keywords. -/
def NamesKeyword (sig : Signature) (name : String) : Prop :=
  ∃ p ∈ sig.parameters, p.name = name ∧ (p.kind = .positionalOrKeyword ∨ p.kind = .keywordOnly)

instance (sig : Signature) (name : String) : Decidable (sig.NamesKeyword name) :=
  inferInstanceAs (Decidable (∃ p ∈ sig.parameters, _))

/-- A keyword argument has a place: a parameter whose slot is still open, a parameter that only
    takes keywords, or among the surplus keywords. -/
inductive TakesKeyword (sig : Signature) (call : CallArguments) (name : String) : Prop
  | unfilled {p : Parameter} (member : p ∈ sig.parameters) (same : p.name = name)
      (kind : p.kind = .positionalOrKeyword) (unfilled : ¬ sig.FillsSlot call p)
  | keywordOnly {p : Parameter} (member : p ∈ sig.parameters) (same : p.name = name)
      (kind : p.kind = .keywordOnly)
  | surplus {p : Parameter} (unnamed : ¬ sig.NamesKeyword name) (member : p ∈ sig.parameters)
      (kind : p.kind = .varKeyword)

/-- The call has an argument for a parameter: in its slot, or under its name where the parameter
    is not positional-only. -/
def Has (sig : Signature) (call : CallArguments) (p : Parameter) : Prop :=
  sig.FillsSlot call p ∨ p.kind ≠ .positionalOnly ∧ p.name ∈ call.keyword.keys

/-- What a call supplies for a parameter. -/
inductive Supplies (sig : Signature) (call : CallArguments) : Parameter → Value → Prop
  | slot {slot : Nat} {p : Parameter} {value : Value} (place : sig.positional[slot]? = some p)
      (given : call.positional[slot]? = some value) : Supplies sig call p value
  | keyword {p : Parameter} {value : Value}
      (kind : p.kind = .positionalOrKeyword ∨ p.kind = .keywordOnly)
      (given : call.keyword.get? p.name = some value) : Supplies sig call p value
  | tail {p : Parameter} (kind : p.kind = .varPositional)
      (longer : sig.positionalCount < call.positional.length) :
      Supplies sig call p (.list (call.positional.drop sig.positionalCount))
  | surplus {p : Parameter} {entries : Entries Value} (kind : p.kind = .varKeyword)
      (left : entries = call.keyword.entries.filter fun argument =>
        !decide (sig.NamesKeyword argument.1))
      (nonempty : entries ≠ []) : Supplies sig call p (.map entries)

/-- All arguments that bound parameters were bound to, in the order of declaration. -/
def received (sig : Signature) (bound : BoundArguments) : List Value :=
  sig.parameters.flatMap fun p => ((bound.get? p.name).map p.kind.collected).getD []

theorem isSurplus_eq (name : String) : sig.isSurplus name = !decide (sig.NamesKeyword name) := by
  cases surplus : sig.isSurplus name with
  | true =>
    have unnamed : ¬ sig.NamesKeyword name := by
      intro named
      rw [isSurplus_eq_false_iff.mpr named] at surplus
      cases surplus
    simp [unnamed]
  | false =>
    have named : sig.NamesKeyword name := isSurplus_eq_false_iff.mp surplus
    simp [named]

theorem surplusKeyword_eq : sig.surplusKeyword call =
    call.keyword.entries.filter fun argument => !decide (sig.NamesKeyword argument.1) := by
  simp only [surplusKeyword, isSurplus_eq]

/-- The slot of a name has a value exactly if the parameter of that name is filled. -/
theorem isSome_slotValue?_iff (member : p ∈ sig.parameters) :
    (sig.slotValue? call p.name).isSome ↔ sig.FillsSlot call p := by
  constructor
  · intro found
    obtain ⟨value, found⟩ := Option.isSome_iff_exists.mp found
    obtain ⟨slot, position, given⟩ := Option.bind_eq_some_iff.mp found
    obtain ⟨q, place, same⟩ := position?_eq_some_iff.mp position
    have positional := mem_positional_iff.mp (List.mem_of_getElem? place)
    cases eq_of_name_eq positional.1 member same
    exact ⟨slot, place, (List.getElem?_eq_some_iff.mp given).1⟩
  · intro filled
    rcases filled with ⟨slot, place, bound⟩
    simp [slotValue?_of_place place, bound]

theorem slotValue?_eq_none_iff (member : p ∈ sig.parameters) :
    sig.slotValue? call p.name = none ↔ ¬ sig.FillsSlot call p := by
  rw [← isSome_slotValue?_iff member, Option.isSome_iff_ne_none, ne_eq, not_not]

theorem FillsSlot.isPositional (filled : sig.FillsSlot call p) : p.kind.isPositional = true := by
  obtain ⟨slot, place, -⟩ := filled
  exact (mem_positional_iff.mp (List.mem_of_getElem? place)).2

/-- A keyword has a place exactly if it can go to the surplus or to an open slot. -/
theorem takesKeyword_iff : sig.TakesKeyword call name ↔
    (sig.isSurplus name = true → ∃ p ∈ sig.parameters, p.kind = .varKeyword) ∧
      (sig.isSurplus name = false → sig.slotValue? call name = none) := by
  cases surplus : sig.isSurplus name with
  | true =>
    have unnamed : ¬ sig.NamesKeyword name := by simpa [isSurplus_eq] using surplus
    simp only [true_implies, reduceCtorEq, false_implies, and_true]
    constructor
    · intro takes
      cases takes with
      | unfilled member same kind => exact absurd ⟨_, member, same, .inl kind⟩ unnamed
      | keywordOnly member same kind => exact absurd ⟨_, member, same, .inr kind⟩ unnamed
      | surplus _ member kind => exact ⟨_, member, kind⟩
    · intro collects
      rcases collects with ⟨p, member, kind⟩
      exact .surplus unnamed member kind
  | false =>
    have named := isSurplus_eq_false_iff.mp surplus
    simp only [reduceCtorEq, false_implies, true_implies, true_and]
    constructor
    · intro takes
      cases takes with
      | unfilled member same kind unfilled =>
        exact same ▸ (slotValue?_eq_none_iff member).mpr unfilled
      | keywordOnly member same kind =>
        rw [← same, slotValue?_eq_none_iff member]
        intro filled
        simpa [kind, ParameterKind.isPositional] using filled.isPositional
      | surplus unnamed => exact absurd named unnamed
    · intro empty
      obtain ⟨p, member, rfl, kind⟩ := named
      rcases kind with kind | kind
      · exact .unfilled member rfl kind ((slotValue?_eq_none_iff member).mp empty)
      · exact .keywordOnly member rfl kind

/-- A parameter that takes one argument is supplied exactly if the call has an argument for it. -/
theorem isSome_supplied?_iff (member : p ∈ sig.parameters) (plain : p.kind.isVariadic = false) :
    (sig.supplied? call p).isSome ↔ sig.Has call p := by
  have named : (call.keyword.get? p.name).isSome ↔ p.name ∈ call.keyword.keys :=
    OrderedMap.isSome_get?_iff
  have filled : (sig.slotValue? call p.name).isSome ↔ sig.FillsSlot call p :=
    isSome_slotValue?_iff member
  cases kind : p.kind with
  | positionalOnly => simp [supplied?, Has, kind, filled]
  | positionalOrKeyword => simp [supplied?, Has, kind, filled, named]
  | keywordOnly =>
    have unfilled : ¬ sig.FillsSlot call p := by
      intro filled
      simpa [kind, ParameterKind.isPositional] using filled.isPositional
    simp [supplied?, Has, kind, unfilled, named]
  | varPositional | varKeyword => simp [kind, ParameterKind.isVariadic] at plain

theorem isSome_supplied?_varPositional_iff (kind : p.kind = .varPositional) :
    (sig.supplied? call p).isSome ↔ sig.positionalCount < call.positional.length := by
  simp [supplied?, kind, surplusPositional]

theorem isSome_supplied?_varKeyword_iff (kind : p.kind = .varKeyword) :
    (sig.supplied? call p).isSome ↔ ∃ name ∈ call.keyword.keys, ¬ sig.NamesKeyword name := by
  simp [supplied?, kind, surplusKeyword_eq, OrderedMap.keys, Entries.keys]

/-- When a call fits, told by places. -/
theorem fits_iff : sig.Fits call ↔
    (call.positional.length ≤ sig.positionalCount ∨
      ∃ p ∈ sig.parameters, p.kind = .varPositional) ∧
    (∀ name ∈ call.keyword.keys, sig.TakesKeyword call name) ∧
    (∀ p ∈ sig.parameters, p.isRequired = true → sig.Has call p) := by
  constructor
  · intro fits
    refine ⟨fits.room, fun name named => ?_, fun p member required => ?_⟩
    · exact takesKeyword_iff.mpr ⟨fits.surplus name named, fits.named name named⟩
    · have plain := isVariadic_of_isRequired required
      exact (isSome_supplied?_iff member plain).mp (fits.required p member required)
  · intro all
    rcases all with ⟨room, takes, has⟩
    refine ⟨room, ?_, ?_, fun p member required => ?_⟩
    · exact fun name named => (takesKeyword_iff.mp (takes name named)).1
    · exact fun name named => (takesKeyword_iff.mp (takes name named)).2
    · have plain := isVariadic_of_isRequired required
      exact (isSome_supplied?_iff member plain).mpr (has p member required)

/-! ## What parameters are bound to -/

/-- In a call that fits, what is read off the call is what it supplies. -/
theorem supplied?_eq_some_iff (fits : sig.Fits call) (member : p ∈ sig.parameters) :
    sig.supplied? call p = some value ↔ sig.Supplies call p value := by
  constructor
  · intro found
    have slot : sig.slotValue? call p.name = some value → sig.Supplies call p value := by
      intro filled
      have isFilled : (sig.slotValue? call p.name).isSome := by simp [filled]
      obtain ⟨i, place, -⟩ := (isSome_slotValue?_iff member).mp isFilled
      rw [slotValue?_of_place place] at filled
      exact .slot place filled
    cases kind : p.kind with
    | positionalOnly => exact slot (by simpa [supplied?, kind] using found)
    | positionalOrKeyword =>
      simp only [supplied?, kind, Option.or_eq_some_iff] at found
      rcases found with filled | ⟨-, given⟩
      · exact slot filled
      · exact .keyword (.inl kind) given
    | keywordOnly => exact .keyword (.inr kind) (by simpa [supplied?, kind] using found)
    | varPositional =>
      simp only [supplied?, kind, Option.ite_none_left_eq_some, Option.some.injEq,
        surplusPositional, List.isEmpty_iff, List.drop_eq_nil_iff, Nat.not_le] at found
      obtain ⟨longer, rfl⟩ := found
      exact .tail kind longer
    | varKeyword =>
      simp only [supplied?, kind, Option.ite_none_left_eq_some, Option.some.injEq,
        List.isEmpty_iff] at found
      obtain ⟨nonempty, rfl⟩ := found
      exact .surplus kind surplusKeyword_eq nonempty
  · intro supplies
    cases supplies with
    | slot place given =>
      rw [supplied?_of_place place (List.getElem?_eq_some_iff.mp given).1]
      exact (List.getElem?_eq_getElem _).symm.trans given
    | keyword kind given =>
      have taken := isSurplus_eq_false_iff.mpr ⟨p, member, rfl, kind⟩
      have named : p.name ∈ call.keyword.keys := OrderedMap.isSome_get?_iff.mp (by simp [given])
      have empty := fits.named p.name named taken
      rcases kind with kind | kind <;> simp [supplied?, kind, empty, given]
    | tail kind longer => simp [supplied?, kind, surplusPositional, longer]
    | surplus kind left nonempty =>
      rw [← surplusKeyword_eq] at left
      subst left
      simp [supplied?, kind, nonempty]

/-! ## Nothing is lost and nothing doubled -/

/-- The slots that are filled and the keywords that name a parameter have different names. -/
theorem nodup_keys_named (fits : sig.Fits call) :
    (Entries.keys (sig.slotEntries call ++ sig.namedKeyword call)).Nodup := by
  have slots : (Entries.keys (sig.slotEntries call)).Nodup := by
    rw [slotEntries, Entries.keys, (map_zip_eq_take _ _).1]
    exact sig.nodup_positional.sublist (List.take_sublist _ _)
  have keywords : (Entries.keys (sig.namedKeyword call)).Nodup :=
    (List.filter_sublist.map Prod.fst).nodup call.keyword.nodup
  rw [Entries.keys_append, List.nodup_append]
  refine ⟨slots, keywords, ?_⟩
  rintro name filled _ given rfl
  rw [← Entries.isSome_get?_iff, get?_slotEntries] at filled
  rw [namedKeyword, Entries.keys_filter fun name => !sig.isSurplus name, List.mem_filter] at given
  rw [fits.named name given.1 (by simpa using given.2)] at filled
  cases filled

/-- Every name that something is assigned to is the name of a parameter. -/
theorem mem_names_of_named
    (named : name ∈ Entries.keys (sig.slotEntries call ++ sig.namedKeyword call)) :
    name ∈ sig.parameters.map Parameter.name := by
  rw [← Entries.isSome_get?_iff, Entries.get?_append, get?_slotEntries, get?_namedKeyword,
    Option.isSome_or, Bool.or_eq_true] at named
  rcases named with filled | given
  · obtain ⟨value, found⟩ := Option.isSome_iff_exists.mp filled
    obtain ⟨slot, position, -⟩ := Option.bind_eq_some_iff.mp found
    obtain ⟨p, place, rfl⟩ := position?_eq_some_iff.mp position
    exact List.mem_map_of_mem (mem_positional_iff.mp (List.mem_of_getElem? place)).1
  · split at given
    · cases given
    next named =>
      obtain ⟨p, member, rfl, -⟩ := isSurplus_eq_false_iff.mp (by simpa using named)
      exact List.mem_map_of_mem member

/-- Nothing is assigned to the name of a variadic parameter. -/
theorem get?_named_of_variadic (member : p ∈ sig.parameters) (variadic : p.kind.isVariadic = true) :
    Entries.get? (sig.slotEntries call ++ sig.namedKeyword call) p.name = none := by
  have unfilled : ¬ sig.FillsSlot call p := by
    intro filled
    have plain := ParameterKind.isVariadic_of_isPositional filled.isPositional
    rw [plain] at variadic
    cases variadic
  have surplus : sig.isSurplus p.name = true := by
    rw [← Bool.not_eq_false, isSurplus_eq_false_iff]
    rintro ⟨q, memberQ, same, kind⟩
    cases eq_of_name_eq memberQ member same
    rcases kind with kind | kind <;> simp [kind, ParameterKind.isVariadic] at variadic
  rw [Entries.get?_append, get?_slotEntries, get?_namedKeyword,
    (slotValue?_eq_none_iff member).mpr unfilled, surplus]
  rfl

/-- What all parameters of a kind are given is given once, where there is at most one of them. -/
theorem flatMap_of_kind {kind : ParameterKind} {given : List Value}
    (unique : ∀ p ∈ sig.parameters, ∀ q ∈ sig.parameters, p.kind = kind → q.kind = kind → p = q)
    (taken : given = [] ∨ ∃ p ∈ sig.parameters, p.kind = kind) :
    (sig.parameters.flatMap fun p => if p.kind = kind then given else []) = given := by
  rcases taken with rfl | ⟨p, member, rfl⟩
  · simp
  · obtain ⟨before, after, split⟩ := List.append_of_mem member
    have distinct : sig.parameters.Nodup := .of_map Parameter.name sig.nodup_names
    have others : ∀ q ∈ before ++ after, q.kind ≠ p.kind := by
      intro q memberQ same
      rw [split, List.nodup_middle, List.nodup_cons] at distinct
      have inside : q ∈ sig.parameters := by
        rw [split]
        simp only [List.mem_append, List.mem_cons] at memberQ ⊢
        exact memberQ.imp_right .inr
      cases unique q inside p member same rfl
      exact distinct.1 memberQ
    have nothing : ∀ qs : List Parameter, (∀ q ∈ qs, q.kind ≠ p.kind) →
        (qs.flatMap fun q => if q.kind = p.kind then given else []) = [] := by
      intro qs different
      rw [List.flatMap_eq_nil_iff]
      exact fun q inside => if_neg (different q inside)
    rw [split, List.flatMap_append, List.flatMap_cons, if_pos rfl,
      nothing before fun q inside => others q (List.mem_append_left _ inside),
      nothing after fun q inside => others q (List.mem_append_right _ inside)]
    simp

/-- What a parameter receives: what is assigned to its name, or the surplus. -/
theorem collected_supplied? (member : p ∈ sig.parameters) :
    ((sig.supplied? call p).map p.kind.collected).getD [] =
      (Entries.get? (sig.slotEntries call ++ sig.namedKeyword call) p.name).toList ++
        ((if p.kind = .varPositional then sig.surplusPositional call else []) ++
          if p.kind = .varKeyword then (sig.surplusKeyword call).map Prod.snd else []) := by
  cases variadic : p.kind.isVariadic with
  | true =>
    rw [get?_named_of_variadic member variadic]
    cases kind : p.kind <;> simp [kind, ParameterKind.isVariadic] at variadic
    · cases empty : sig.surplusPositional call <;>
        simp [supplied?, kind, empty, ParameterKind.collected]
    · cases empty : sig.surplusKeyword call <;>
        simp [supplied?, kind, empty, ParameterKind.collected]
  | false =>
    rw [get?_named member variadic]
    cases kind : p.kind <;> simp [kind, ParameterKind.isVariadic] at variadic
    all_goals cases sig.supplied? call p <;> simp [ParameterKind.collected]

/-- Together the parameters are assigned the arguments of the slots and the keywords that name
    one. -/
theorem assigned_perm (fits : sig.Fits call) : (sig.parameters.flatMap fun p =>
    (Entries.get? (sig.slotEntries call ++ sig.namedKeyword call) p.name).toList).Perm
      (call.positional.take sig.positionalCount ++ (sig.namedKeyword call).map Prod.snd) := by
  have perm := Entries.flatMap_get?_perm sig.nodup_names (nodup_keys_named fits)
    fun name named => mem_names_of_named named
  rw [List.flatMap_map, List.map_append] at perm
  rwa [slotEntries, (map_zip_eq_take _ _).2, List.length_map] at perm

theorem flatMap_surplusPositional (fits : sig.Fits call) : (sig.parameters.flatMap fun p =>
    if p.kind = .varPositional then sig.surplusPositional call else []) =
      call.positional.drop sig.positionalCount :=
  flatMap_of_kind (fun _ member _ member' => eq_of_varPositional member member')
    (fits.room.imp_left List.drop_eq_nil_of_le)

theorem flatMap_surplusKeyword (fits : sig.Fits call) : (sig.parameters.flatMap fun p =>
    if p.kind = .varKeyword then (sig.surplusKeyword call).map Prod.snd else []) =
      (sig.surplusKeyword call).map Prod.snd := by
  refine flatMap_of_kind (fun _ member _ member' => eq_of_varKeyword member member') ?_
  by_cases empty : sig.surplusKeyword call = []
  · exact .inl (by simp [empty])
  · obtain ⟨argument, inside⟩ := List.exists_mem_of_ne_nil _ empty
    rw [surplusKeyword, List.mem_filter] at inside
    exact .inr (fits.surplus argument.1 (Entries.mem_keys_of_mem inside.1) inside.2)

/-- Every argument of a call that binds is received, and received once. -/
theorem received_perm {bound : BoundArguments} (binds : sig.bind call = .ok bound) :
    (sig.received bound).Perm (call.positional ++ call.keyword.entries.map Prod.snd) := by
  have fits := (bind_eq_ok_iff.mp binds).1
  have collected : sig.received bound = sig.parameters.flatMap fun p =>
      (Entries.get? (sig.slotEntries call ++ sig.namedKeyword call) p.name).toList ++
        ((if p.kind = .varPositional then sig.surplusPositional call else []) ++
          if p.kind = .varKeyword then (sig.surplusKeyword call).map Prod.snd else []) := by
    refine List.flatMap_congr fun p member => ?_
    rw [get?_bound binds member, collected_supplied? member]
  -- What is received goes parameter by parameter, the arguments of the call part by part.
  have spread : (sig.received bound).Perm (call.positional.take sig.positionalCount ++
      (sig.namedKeyword call).map Prod.snd ++ (call.positional.drop sig.positionalCount ++
        (sig.surplusKeyword call).map Prod.snd)) := by
    have surplus := List.flatMap_append_perm sig.parameters
      (fun p => if p.kind = .varPositional then sig.surplusPositional call else [])
      (fun p => if p.kind = .varKeyword then (sig.surplusKeyword call).map Prod.snd else [])
    rw [flatMap_surplusPositional fits, flatMap_surplusKeyword fits] at surplus
    rw [collected]
    exact (List.flatMap_append_perm _ _ _).symm.trans
      ((assigned_perm fits).append surplus.symm)
  have keywords : ((sig.surplusKeyword call).map Prod.snd ++
      (sig.namedKeyword call).map Prod.snd).Perm (call.keyword.entries.map Prod.snd) := by
    rw [← List.map_append]
    exact (List.filter_append_perm _ _).map Prod.snd
  rw [← List.take_append_drop sig.positionalCount call.positional]
  exact spread.trans ((perm_append_swap _ _ _ _).trans (keywords.append_left _))

/-! ## Calls that are refused -/

/-- Why a keyword argument is refused: its slot is filled, or it could only go to the surplus and
    no parameter collects it. -/
inductive KeywordRefusal (sig : Signature) (call : CallArguments) (name : String) :
    BindError → Prop
  | filled {p : Parameter} (member : p ∈ sig.parameters) (same : p.name = name)
      (kind : p.kind = .positionalOrKeyword) (filled : sig.FillsSlot call p) :
      KeywordRefusal sig call name (.multipleValues name)
  | positionalOnly {p : Parameter} (member : p ∈ sig.parameters) (same : p.name = name)
      (kind : p.kind = .positionalOnly) (uncollected : ∀ q ∈ sig.parameters, q.kind ≠ .varKeyword) :
      KeywordRefusal sig call name (.positionalOnlyAsKeyword name)
  | unknown (unknown : ∀ p ∈ sig.parameters, p.name = name → p.kind.isVariadic = true)
      (uncollected : ∀ q ∈ sig.parameters, q.kind ≠ .varKeyword) :
      KeywordRefusal sig call name (.unexpectedKeyword name)

/-- Why a call is refused: for its positional arguments; if there is room for them, for the first
    keyword argument that is refused; if none is, for the first required parameter that it has no
    argument for. -/
inductive Refusal (sig : Signature) (call : CallArguments) : BindError → Prop
  | positional (longer : sig.positionalCount < call.positional.length)
      (noTail : ∀ p ∈ sig.parameters, p.kind ≠ .varPositional) :
      Refusal sig call (.tooManyPositional sig.positionalCount call.positional.length)
  | keyword {before after : Entries Value} {argument : String × Value} {error : BindError}
      (room : call.positional.length ≤ sig.positionalCount ∨
        ∃ p ∈ sig.parameters, p.kind = .varPositional)
      (split : call.keyword.entries = before ++ argument :: after)
      (earlier : ∀ other ∈ before, sig.TakesKeyword call other.1)
      (refused : sig.KeywordRefusal call argument.1 error) : Refusal sig call error
  | missing {before after : List Parameter} {p : Parameter}
      (room : call.positional.length ≤ sig.positionalCount ∨
        ∃ p ∈ sig.parameters, p.kind = .varPositional)
      (takes : ∀ name ∈ call.keyword.keys, sig.TakesKeyword call name)
      (split : sig.parameters = before ++ p :: after)
      (earlier : ∀ q ∈ before, q.isRequired = true → sig.Has call q)
      (required : p.isRequired = true) (absent : ¬ sig.Has call p) :
      Refusal sig call (.missingArgument p.name)

theorem keywordTarget?_eq_some_iff : sig.keywordTarget? name = some p ↔
    p ∈ sig.parameters ∧ p.name = name ∧ p.kind.isVariadic = false := by
  rw [keywordTarget?, Option.filter_eq_some_iff, parameter?_eq_some_iff, Bool.not_eq_true',
    and_assoc]

theorem keywordTarget?_eq_none_iff : sig.keywordTarget? name = none ↔
    ∀ p ∈ sig.parameters, p.name = name → p.kind.isVariadic = true := by
  rw [Option.eq_none_iff_forall_ne_some]
  constructor
  · intro none p member same
    by_contra plain
    exact none p (keywordTarget?_eq_some_iff.mpr ⟨member, same, by simpa using plain⟩)
  · intro variadic p found
    obtain ⟨member, same, plain⟩ := keywordTarget?_eq_some_iff.mp found
    simp [variadic p member same] at plain

theorem isSome_varKeyword?_eq_false_iff :
    sig.varKeyword?.isSome = false ↔ ∀ p ∈ sig.parameters, p.kind ≠ .varKeyword := by
  rw [← Bool.not_eq_true, isSome_varKeyword?_iff]
  simp

/-- A keyword of no parameter that callers can name is refused if nothing collects it. -/
theorem keywordRefusal_iff_of_unknown
    (unknown : ∀ p ∈ sig.parameters, p.name = name → p.kind.isVariadic = true) :
    sig.KeywordRefusal call name error ↔
      sig.varKeyword?.isSome = false ∧ error = .unexpectedKeyword name := by
  rw [isSome_varKeyword?_eq_false_iff]
  constructor
  · intro refused
    cases refused with
    | filled member same kind =>
      simpa [kind, ParameterKind.isVariadic] using unknown _ member same
    | positionalOnly member same kind =>
      simpa [kind, ParameterKind.isVariadic] using unknown _ member same
    | unknown _ uncollected => exact ⟨uncollected, rfl⟩
  · rintro ⟨uncollected, rfl⟩
    exact .unknown unknown uncollected

/-- A keyword of a positional-only parameter is refused if nothing collects it. -/
theorem keywordRefusal_iff_of_positionalOnly (member : p ∈ sig.parameters)
    (kind : p.kind = .positionalOnly) : sig.KeywordRefusal call p.name error ↔
      sig.varKeyword?.isSome = false ∧ error = .positionalOnlyAsKeyword p.name := by
  rw [isSome_varKeyword?_eq_false_iff]
  constructor
  · intro refused
    cases refused with
    | filled memberQ same kindQ =>
      cases eq_of_name_eq memberQ member same
      simp [kind] at kindQ
    | positionalOnly _ _ _ uncollected => exact ⟨uncollected, rfl⟩
    | unknown unknown => simpa [kind, ParameterKind.isVariadic] using unknown p member rfl
  · rintro ⟨uncollected, rfl⟩
    exact .positionalOnly member rfl kind uncollected

/-- A keyword of a parameter that takes keywords is refused if its slot is filled. -/
theorem keywordRefusal_iff_of_named (member : p ∈ sig.parameters)
    (kind : p.kind = .positionalOrKeyword ∨ p.kind = .keywordOnly) :
    sig.KeywordRefusal call p.name error ↔
      sig.FillsSlot call p ∧ error = .multipleValues p.name := by
  constructor
  · intro refused
    cases refused with
    | filled memberQ same _ filled =>
      cases eq_of_name_eq memberQ member same
      exact ⟨filled, rfl⟩
    | positionalOnly memberQ same kindQ =>
      cases eq_of_name_eq memberQ member same
      simp [kindQ] at kind
    | unknown unknown =>
      have variadic := unknown p member rfl
      rcases kind with kind | kind <;> simp [kind, ParameterKind.isVariadic] at variadic
  · rintro ⟨filled, rfl⟩
    have positional := filled.isPositional
    rcases kind with kind | kind
    · exact .filled member rfl kind filled
    · simp [kind, ParameterKind.isPositional] at positional

/-- One keyword argument is refused for its own sake, whatever was assigned to other names. -/
theorem assignKeyword_eq_error_iff {assigned : Assignment} {argument : String × Value}
    (taken : argument.1 ∈ Entries.keys assigned.named ↔
      (sig.slotValue? call argument.1).isSome) :
    sig.assignKeyword assigned argument = .error error ↔
      sig.KeywordRefusal call argument.1 error := by
  unfold assignKeyword
  cases target : sig.keywordTarget? argument.1 with
  | none =>
    rw [keywordRefusal_iff_of_unknown (keywordTarget?_eq_none_iff.mp target)]
    cases sig.varKeyword?.isSome <;> simp [@eq_comm _ error]
  | some p =>
    obtain ⟨member, same, plain⟩ := keywordTarget?_eq_some_iff.mp target
    by_cases kind : p.kind = .positionalOnly
    · rw [← same, keywordRefusal_iff_of_positionalOnly member kind]
      cases sig.varKeyword?.isSome <;> simp [kind, @eq_comm _ error]
    · have named : p.kind = .positionalOrKeyword ∨ p.kind = .keywordOnly := by
        cases h : p.kind <;> simp [h, ParameterKind.isVariadic] at plain kind ⊢
      have contains : Entries.contains assigned.named argument.1 = true ↔ sig.FillsSlot call p := by
        rw [Entries.contains_iff, taken, ← same, isSome_slotValue?_iff member]
      rw [← same] at contains ⊢
      rw [keywordRefusal_iff_of_named member named, ← contains]
      cases Entries.contains assigned.named p.name <;> simp [kind, @eq_comm _ error]

/-- Keywords of distinct names are assigned after the slots exactly if each of them has a place. -/
theorem foldlM_assignKeyword_slotEntries_iff {arguments : Entries Value} {reached : Assignment}
    (distinct : (Entries.keys arguments).Nodup) :
    arguments.foldlM sig.assignKeyword ⟨sig.slotEntries call, []⟩ = .ok reached ↔
      (∀ argument ∈ arguments, sig.TakesKeyword call argument.1) ∧
      reached = ⟨sig.slotEntries call ++ arguments.filter fun argument =>
        !sig.isSurplus argument.1, arguments.filter fun argument => sig.isSurplus argument.1⟩ := by
  have unassigned : ∀ name, name ∉ Entries.keys (sig.slotEntries call) ↔
      sig.slotValue? call name = none := by
    intro name
    rw [← Entries.get?_eq_none_iff, get?_slotEntries]
  rw [foldlM_assignKeyword_eq_ok_iff distinct, ← and_assoc, List.nil_append]
  simp only [takesKeyword_iff, forall_and, isSome_varKeyword?_iff, unassigned]

/-- Assigning succeeds exactly if there is room for the positional arguments and a place for every
    keyword. -/
theorem assign_eq_ok_iff_takesKeyword {assigned : Assignment} :
    sig.assign call = .ok assigned ↔
      (call.positional.length ≤ sig.positionalCount ∨
        ∃ p ∈ sig.parameters, p.kind = .varPositional) ∧
      (∀ name ∈ call.keyword.keys, sig.TakesKeyword call name) ∧
      assigned = ⟨sig.slotEntries call ++ sig.namedKeyword call, sig.surplusKeyword call⟩ := by
  rw [assign_eq_ok_iff, ← and_assoc (a := ∀ name ∈ _, _ → _), ← forall₂_and]
  simp only [takesKeyword_iff]

/-- A keyword is assigned already, before its turn and with others assigned, if its slot is. -/
theorem mem_keys_slotEntries_append_iff {before : Entries Value}
    (fresh : name ∉ Entries.keys before) :
    name ∈ Entries.keys (sig.slotEntries call ++ before.filter fun argument =>
      !sig.isSurplus argument.1) ↔ (sig.slotValue? call name).isSome := by
  have kept : name ∉ Entries.keys (before.filter fun argument => !sig.isSurplus argument.1) :=
    fun member => fresh ((List.filter_sublist.map Prod.fst).subset member)
  rw [Entries.keys_append, List.mem_append, or_iff_left kept, ← Entries.isSome_get?_iff,
    get?_slotEntries]

/-- Assigning the keywords of a call fails for the first of them that is refused. -/
theorem foldlM_assignKeyword_eq_error_iff :
    call.keyword.entries.foldlM sig.assignKeyword ⟨sig.slotEntries call, []⟩ = .error error ↔
      ∃ before argument after, call.keyword.entries = before ++ argument :: after ∧
        (∀ other ∈ before, sig.TakesKeyword call other.1) ∧
        sig.KeywordRefusal call argument.1 error := by
  rw [foldlM_eq_error_iff]
  refine exists_congr fun before => exists_congr fun argument => exists_congr fun after => ?_
  have parts (split : call.keyword.entries = before ++ argument :: after) :
      (Entries.keys before).Nodup ∧ argument.1 ∉ Entries.keys before := by
    have distinct := call.keyword.nodup
    rw [split, Entries.keys_append, List.nodup_append, Entries.keys_cons] at distinct
    exact ⟨distinct.1, fun member => distinct.2.2 _ member _ List.mem_cons_self rfl⟩
  constructor
  · intro failed
    rcases failed with ⟨reached, split, ran, failed⟩
    obtain ⟨distinct, fresh⟩ := parts split
    obtain ⟨takes, rfl⟩ := (foldlM_assignKeyword_slotEntries_iff distinct).mp ran
    refine ⟨split, takes, (assignKeyword_eq_error_iff ?_).mp failed⟩
    exact mem_keys_slotEntries_append_iff fresh
  · intro failed
    rcases failed with ⟨split, takes, refused⟩
    obtain ⟨distinct, fresh⟩ := parts split
    have ran := (foldlM_assignKeyword_slotEntries_iff distinct).mpr ⟨takes, rfl⟩
    refine ⟨_, split, ran, (assignKeyword_eq_error_iff ?_).mpr refused⟩
    exact mem_keys_slotEntries_append_iff fresh

/-- Assigning fails for too many positional arguments, otherwise for the first keyword that is
    refused. -/
theorem assign_eq_error_iff : sig.assign call = .error error ↔
    (sig.positionalCount < call.positional.length ∧
      (∀ p ∈ sig.parameters, p.kind ≠ .varPositional) ∧
      error = .tooManyPositional sig.positionalCount call.positional.length) ∨
    ((call.positional.length ≤ sig.positionalCount ∨
        ∃ p ∈ sig.parameters, p.kind = .varPositional) ∧
      ∃ before argument after, call.keyword.entries = before ++ argument :: after ∧
        (∀ other ∈ before, sig.TakesKeyword call other.1) ∧
        sig.KeywordRefusal call argument.1 error) := by
  have full : (sig.varPositional?.isNone &&
      decide (sig.positionalCount < call.positional.length)) = true ↔
      ¬ (call.positional.length ≤ sig.positionalCount ∨
        ∃ p ∈ sig.parameters, p.kind = .varPositional) := by
    rw [← isSome_varPositional?_iff]
    simp [and_comm]
  rw [← foldlM_assignKeyword_eq_error_iff]
  unfold assign
  by_cases room : call.positional.length ≤ sig.positionalCount ∨
      ∃ p ∈ sig.parameters, p.kind = .varPositional
  · rw [if_neg fun refused => full.mp refused room, ← slotEntries]
    constructor
    · exact fun refused => .inr ⟨room, refused⟩
    · rintro (⟨longer, noTail, -⟩ | ⟨-, refused⟩)
      · rcases room with short | ⟨p, member, kind⟩
        · exact absurd longer (Nat.not_lt.mpr short)
        · exact absurd kind (noTail p member)
      · exact refused
  · rw [if_pos (full.mpr room), Except.error.injEq]
    simp only [not_or, Nat.not_le, not_exists, not_and] at room
    constructor
    · exact fun same => .inl ⟨room.1, room.2, same.symm⟩
    · rintro (⟨-, -, same⟩ | ⟨short | ⟨p, member, kind⟩, -⟩)
      · exact same.symm
      · exact absurd room.1 (Nat.not_lt.mpr short)
      · exact absurd kind (room.2 p member)

/-- A parameter that is required and that nothing was assigned to is one that the call has no
    argument for. -/
theorem isMissing_iff (member : p ∈ sig.parameters) :
    (p.isRequired && !Entries.contains (sig.slotEntries call ++ sig.namedKeyword call) p.name) =
      true ↔ p.isRequired = true ∧ ¬ sig.Has call p := by
  rw [Bool.and_eq_true, Bool.not_eq_true', ← Bool.not_eq_true]
  refine and_congr_right fun required => not_congr ?_
  have plain := isVariadic_of_isRequired required
  rw [Entries.contains, get?_named member plain, isSome_supplied?_iff member plain]

/-- The first parameter that is missing. -/
theorem find?_missing_eq_some_iff : (sig.parameters.find? fun p => p.isRequired &&
      !Entries.contains (sig.slotEntries call ++ sig.namedKeyword call) p.name) = some p ↔
    ∃ before after, sig.parameters = before ++ p :: after ∧
      (∀ q ∈ before, q.isRequired = true → sig.Has call q) ∧ p.isRequired = true ∧
      ¬ sig.Has call p := by
  have inside {before after : List Parameter} (split : sig.parameters = before ++ p :: after) :
      p ∈ sig.parameters ∧ ∀ q ∈ before, q ∈ sig.parameters := by
    rw [split]
    exact ⟨by simp, fun q member => List.mem_append_left _ member⟩
  rw [List.find?_eq_some_iff_append]
  constructor
  · intro found
    rcases found with ⟨missing, before, after, split, earlier⟩
    refine ⟨before, after, split, fun q member required => ?_,
      (isMissing_iff (inside split).1).mp missing⟩
    by_contra absent
    have missing := (isMissing_iff ((inside split).2 q member)).mpr ⟨required, absent⟩
    simpa [missing] using earlier q member
  · intro found
    rcases found with ⟨before, after, split, earlier, missing⟩
    refine ⟨(isMissing_iff (inside split).1).mpr missing, before, after, split,
      fun q member => ?_⟩
    rw [Bool.not_eq_true', ← Bool.not_eq_true, isMissing_iff ((inside split).2 q member)]
    exact fun missing => missing.2 (earlier q member missing.1)

/-- A call fails to bind exactly for its refusal. -/
theorem bind_eq_error_iff : sig.bind call = .error error ↔ sig.Refusal call error := by
  constructor
  · intro failed
    cases assigns : sig.assign call with
    | error other =>
      simp only [bind, assigns, Except.error.injEq] at failed
      subst failed
      rcases assign_eq_error_iff.mp assigns with
        ⟨longer, noTail, rfl⟩ | ⟨room, _, _, _, split, earlier, refused⟩
      · exact .positional longer noTail
      · exact .keyword room split earlier refused
    | ok assigned =>
      obtain ⟨room, takes, rfl⟩ := assign_eq_ok_iff_takesKeyword.mp assigns
      simp only [bind, assigns] at failed
      split at failed
      next p missing =>
        cases failed
        obtain ⟨_, _, split, earlier, required, absent⟩ := find?_missing_eq_some_iff.mp missing
        exact .missing room takes split earlier required absent
      next => cases failed
  · intro refusal
    cases refusal with
    | positional longer noTail =>
      have failed := assign_eq_error_iff.mpr (.inl ⟨longer, noTail, rfl⟩)
      simp [bind, failed]
    | keyword room split earlier refused =>
      have failed := assign_eq_error_iff.mpr (.inr ⟨room, _, _, _, split, earlier, refused⟩)
      simp [bind, failed]
    | missing room takes split earlier required absent =>
      have assigned := assign_eq_ok_iff_takesKeyword.mpr ⟨room, takes, rfl⟩
      have missing := find?_missing_eq_some_iff.mpr ⟨_, _, split, earlier, required, absent⟩
      simp [bind, assigned, missing]

/-- Binding is exact.  It succeeds exactly if there is room for the positional arguments, every
    keyword has a place and the call has an argument for every required parameter.  Then the
    parameters that the call supplies are bound, in the order of declaration, to what it supplies,
    and no argument is lost or received twice.  Otherwise it fails for the refusal of the call:
    positional arguments come first, then keywords in the order of the call, then parameters. -/
theorem bind_exact (sig : Signature) (call : CallArguments) :
    ((∃ bound, sig.bind call = .ok bound) ↔
      (call.positional.length ≤ sig.positionalCount ∨
        ∃ p ∈ sig.parameters, p.kind = .varPositional) ∧
      (∀ name ∈ call.keyword.keys, sig.TakesKeyword call name) ∧
      (∀ p ∈ sig.parameters, p.isRequired = true → sig.Has call p)) ∧
    (∀ bound, sig.bind call = .ok bound →
      bound.keys.Sublist (sig.parameters.map Parameter.name) ∧
      (∀ p ∈ sig.parameters, ∀ value,
        bound.get? p.name = some value ↔ sig.Supplies call p value) ∧
      (sig.received bound).Perm (call.positional ++ call.keyword.entries.map Prod.snd)) ∧
    ∀ error, sig.bind call = .error error ↔ sig.Refusal call error := by
  refine ⟨?_, fun bound binds => ⟨?_, fun p member value => ?_, received_perm binds⟩,
    fun _ => bind_eq_error_iff⟩
  · rw [← fits_iff]
    constructor
    · intro binds
      obtain ⟨bound, binds⟩ := binds
      exact (bind_eq_ok_iff.mp binds).1
    · intro fits
      exact ⟨⟨sig.arguments call, nodup_keys_arguments⟩, bind_eq_ok_iff.mpr ⟨fits, rfl⟩⟩
  · have listed : bound.keys = Entries.keys (sig.arguments call) :=
      congrArg Entries.keys (bind_eq_ok_iff.mp binds).2
    rw [listed, keys_arguments]
    exact List.filter_sublist.map Parameter.name
  · rw [get?_bound binds member, supplied?_eq_some_iff (bind_eq_ok_iff.mp binds).1 member]

end Signature

end CallGuard
