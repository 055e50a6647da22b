import CallGuard.Binding
import CallGuard.Proofs.Signature

/-!
# What a call binds

Which value a call supplies for a parameter can be read off the call: from the slot of the
parameter, from its keyword, from the tail of positional arguments or from the surplus
keywords.  A call binds exactly if it fits the signature, and then to what it supplies.  A call
that fits is determined by what it supplies, the keywords it names and its positional length.
-/

namespace CallGuard

/-- Names side by side with values read at the first place of a name. -/
theorem Entries.get?_zip {α : Type} (names : List String) (values : List α) (name : String) :
    Entries.get? (names.zip values) name =
      (names.findIdx? fun n => n == name).bind fun i => values[i]? := by
  induction names generalizing values with
  | nil => simp
  | cons n rest ih =>
    cases values with
    | nil => cases (n :: rest).findIdx? fun n => n == name <;> simp
    | cons v others =>
      by_cases h : n = name
      · simp [Entries.get?_cons, h, List.findIdx?_cons]
      · rw [List.zip_cons_cons, Entries.get?_cons_of_ne _ _ h, ih, List.findIdx?_cons,
          if_neg (by simpa using h), Option.bind_map]
        rfl

namespace Signature

variable {sig : Signature} {call : CallArguments}

/-- Whether a keyword goes to the surplus: it names no parameter that takes keywords. -/
def isSurplus (sig : Signature) (name : String) : Bool :=
  match sig.keywordTarget? name with
  | some p => p.kind = .positionalOnly
  | none => true

/-- The value in the positional slot of a name. -/
def slotValue? (sig : Signature) (call : CallArguments) (name : String) : Option Value :=
  (sig.position? name).bind fun slot => call.positional[slot]?

/-- The positional arguments after the slots. -/
def surplusPositional (sig : Signature) (call : CallArguments) : List Value :=
  call.positional.drop sig.positionalCount

/-- The keyword arguments that go to the surplus, in the order of the call. -/
def surplusKeyword (sig : Signature) (call : CallArguments) : Entries Value :=
  call.keyword.entries.filter fun argument => sig.isSurplus argument.1

/-- The value that a call supplies for a parameter. -/
def supplied? (sig : Signature) (call : CallArguments) (p : Parameter) : Option Value :=
  match p.kind with
  | .positionalOnly => sig.slotValue? call p.name
  | .positionalOrKeyword => (sig.slotValue? call p.name).or (call.keyword.get? p.name)
  | .keywordOnly => call.keyword.get? p.name
  | .varPositional =>
    if (sig.surplusPositional call).isEmpty then none else some (.list (sig.surplusPositional call))
  | .varKeyword =>
    if (sig.surplusKeyword call).isEmpty then none else some (.map (sig.surplusKeyword call))

/-- The supplied parameters with their values, in the order of declaration. -/
def arguments (sig : Signature) (call : CallArguments) : Entries Value :=
  sig.parameters.filterMap fun p => (sig.supplied? call p).map fun value => (p.name, value)

/-- When a call fits: every argument has a place of its own and nothing required is missing. -/
structure Fits (sig : Signature) (call : CallArguments) : Prop where
  room : call.positional.length ≤ sig.positionalCount ∨
    ∃ p ∈ sig.parameters, p.kind = .varPositional
  surplus : ∀ name ∈ call.keyword.keys, sig.isSurplus name = true →
    ∃ p ∈ sig.parameters, p.kind = .varKeyword
  named : ∀ name ∈ call.keyword.keys, sig.isSurplus name = false →
    sig.slotValue? call name = none
  required : ∀ p ∈ sig.parameters, p.isRequired = true → (sig.supplied? call p).isSome

/-- The keywords that are no surplus name a parameter that takes keywords. -/
theorem isSurplus_eq_false_iff {name : String} :
    sig.isSurplus name = false ↔ ∃ p ∈ sig.parameters, p.name = name ∧
      (p.kind = .positionalOrKeyword ∨ p.kind = .keywordOnly) := by
  unfold isSurplus keywordTarget?
  cases found : sig.parameter? name with
  | none =>
    simp only [Option.filter_none, Bool.true_eq_false, false_iff]
    intro surplus
    rcases surplus with ⟨p, member, rfl, -⟩
    simp [parameter?_of_mem member] at found
  | some p =>
    obtain ⟨member, rfl⟩ := parameter?_eq_some_iff.mp found
    constructor
    · intro kept
      refine ⟨p, member, rfl, ?_⟩
      cases h : p.kind <;> simp_all [Option.filter, ParameterKind.isVariadic]
    · intro surplus
      rcases surplus with ⟨q, memberQ, same, kind⟩
      cases eq_of_name_eq memberQ member same
      rcases kind with h | h <;> simp [Option.filter, ParameterKind.isVariadic, h]

theorem isSurplus_of_positionalOnly {p : Parameter} (member : p ∈ sig.parameters)
    (kind : p.kind = .positionalOnly) : sig.isSurplus p.name = true := by
  rw [← Bool.not_eq_false, isSurplus_eq_false_iff]
  intro surplus
  rcases surplus with ⟨q, memberQ, same, h⟩
  cases eq_of_name_eq memberQ member same
  simp [kind] at h

/-! ## Assigning -/

/-- A computation that may fail gives a result if both its steps do. -/
theorem bind_eq_ok_iff_exists {ε α β : Type} {first : Except ε α} {second : α → Except ε β}
    {b : β} : first >>= second = .ok b ↔ ∃ a, first = .ok a ∧ second a = .ok b := by
  cases first with
  | error e =>
    change Except.error e = Except.ok b ↔ _
    simp
  | ok a =>
    change second a = Except.ok b ↔ _
    simp

/-- One keyword goes to the surplus, or to a name that nothing was assigned to. -/
theorem assignKeyword_eq_ok_iff {assigned next : Assignment} {argument : String × Value} :
    sig.assignKeyword assigned argument = .ok next ↔
      (sig.isSurplus argument.1 = true ∧ sig.varKeyword?.isSome ∧
        next = ⟨assigned.named, assigned.surplus ++ [argument]⟩) ∨
      (sig.isSurplus argument.1 = false ∧ argument.1 ∉ Entries.keys assigned.named ∧
        next = ⟨assigned.named ++ [argument], assigned.surplus⟩) := by
  unfold assignKeyword isSurplus
  cases sig.keywordTarget? argument.1 with
  | none =>
    cases sig.varKeyword?.isSome <;> simp [@eq_comm _ next]
  | some p =>
    by_cases kind : p.kind = .positionalOnly
    · cases sig.varKeyword?.isSome <;> simp [kind, @eq_comm _ next]
    · cases h : Entries.contains assigned.named argument.1
      · have fresh := Entries.contains_eq_false_iff.mp h
        simp [kind, fresh, @eq_comm _ next]
      · have taken := Entries.contains_iff.mp h
        simp [kind, taken]

/-- Keywords of distinct names are assigned if each of them can be, and keep their order. -/
theorem foldlM_assignKeyword_eq_ok_iff {arguments : Entries Value} {assigned next : Assignment}
    (distinct : (Entries.keys arguments).Nodup) :
    arguments.foldlM sig.assignKeyword assigned = .ok next ↔
      (∀ argument ∈ arguments, sig.isSurplus argument.1 = true → sig.varKeyword?.isSome) ∧
      (∀ argument ∈ arguments, sig.isSurplus argument.1 = false →
        argument.1 ∉ Entries.keys assigned.named) ∧
      next = ⟨assigned.named ++ arguments.filter fun argument => !sig.isSurplus argument.1,
        assigned.surplus ++ arguments.filter fun argument => sig.isSurplus argument.1⟩ := by
  induction arguments generalizing assigned with
  | nil => simp [pure, Except.pure, @eq_comm _ next]
  | cons argument rest ih =>
    have parts := List.nodup_cons.mp distinct
    simp only [List.foldlM_cons, bind_eq_ok_iff_exists, assignKeyword_eq_ok_iff, ih parts.2,
      List.forall_mem_cons]
    cases surplus : sig.isSurplus argument.1 with
    | true =>
      constructor
      · intro assigned
        rcases assigned with ⟨_, ⟨-, collects, rfl⟩ | ⟨isNamed, -⟩, extra, named, rfl⟩
        · exact ⟨⟨fun _ => collects, extra⟩, ⟨by simp, named⟩, by simp [surplus]⟩
        · simp at isNamed
      · intro assigned
        rcases assigned with ⟨⟨collects, extra⟩, ⟨-, named⟩, rfl⟩
        exact ⟨_, .inl ⟨rfl, collects rfl, rfl⟩, extra, named, by simp [surplus]⟩
    | false =>
      have later : ∀ other ∈ rest, other.1 ≠ argument.1 := by
        rintro ⟨name, value⟩ member rfl
        exact parts.1 (Entries.mem_keys_of_mem member)
      constructor
      · intro assigned
        rcases assigned with ⟨_, ⟨isSurplus, -⟩ | ⟨-, fresh, rfl⟩, extra, named, rfl⟩
        · simp at isSurplus
        · refine ⟨⟨by simp, extra⟩, ⟨fun _ => fresh, fun other member kept taken => ?_⟩,
            by simp [surplus]⟩
          exact named other member kept (by simp [taken])
      · intro assigned
        rcases assigned with ⟨⟨-, extra⟩, ⟨fresh, named⟩, rfl⟩
        refine ⟨_, .inr ⟨rfl, fresh rfl, rfl⟩, extra, fun other member kept => ?_,
          by simp [surplus]⟩
        simp [later other member, named other member kept]

/-- The values of the slots that a call fills, by name. -/
def slotEntries (sig : Signature) (call : CallArguments) : Entries Value :=
  (sig.positional.map Parameter.name).zip call.positional

/-- The keyword arguments that name a parameter. -/
def namedKeyword (sig : Signature) (call : CallArguments) : Entries Value :=
  call.keyword.entries.filter fun argument => !sig.isSurplus argument.1

theorem get?_slotEntries (name : String) :
    Entries.get? (sig.slotEntries call) name = sig.slotValue? call name := by
  rw [slotEntries, Entries.get?_zip, List.findIdx?_map]
  rfl

theorem get?_namedKeyword (name : String) : Entries.get? (sig.namedKeyword call) name =
    if sig.isSurplus name then none else call.keyword.get? name := by
  rw [namedKeyword, Entries.get?_filter fun name => !sig.isSurplus name]
  cases sig.isSurplus name <;> simp [OrderedMap.get?]

/-- Assigning succeeds exactly if every argument has a place of its own. -/
theorem assign_eq_ok_iff {assigned : Assignment} :
    sig.assign call = .ok assigned ↔
      (call.positional.length ≤ sig.positionalCount ∨
        ∃ p ∈ sig.parameters, p.kind = .varPositional) ∧
      (∀ name ∈ call.keyword.keys, sig.isSurplus name = true →
        ∃ p ∈ sig.parameters, p.kind = .varKeyword) ∧
      (∀ name ∈ call.keyword.keys, sig.isSurplus name = false →
        sig.slotValue? call name = none) ∧
      assigned = ⟨sig.slotEntries call ++ sig.namedKeyword call, sig.surplusKeyword call⟩ := by
  have keywords : call.keyword.entries.foldlM sig.assignKeyword ⟨sig.slotEntries call, []⟩ =
      .ok assigned ↔
      (∀ name ∈ call.keyword.keys, sig.isSurplus name = true →
        ∃ p ∈ sig.parameters, p.kind = .varKeyword) ∧
      (∀ name ∈ call.keyword.keys, sig.isSurplus name = false →
        sig.slotValue? call name = none) ∧
      assigned = ⟨sig.slotEntries call ++ sig.namedKeyword call, sig.surplusKeyword call⟩ := by
    rw [foldlM_assignKeyword_eq_ok_iff call.keyword.nodup]
    simp [OrderedMap.keys, Entries.keys, isSome_varKeyword?_iff, ← get?_slotEntries,
      Entries.get?_eq_none_iff, namedKeyword, surplusKeyword]
  rw [← keywords, ← isSome_varPositional?_iff]
  unfold assign
  split
  next tooMany =>
    simp only [Bool.and_eq_true, Option.isNone_iff_eq_none, decide_eq_true_eq] at tooMany
    simp [tooMany.1, Nat.not_le.mpr tooMany.2]
  next room =>
    have room : call.positional.length ≤ sig.positionalCount ∨ sig.varPositional?.isSome := by
      cases h : sig.varPositional? <;> simp_all
    simp [room, slotEntries]

/-- Among the assigned names a parameter other than the variadic ones finds what the call
    supplies for it. -/
theorem get?_named {p : Parameter} (member : p ∈ sig.parameters)
    (plain : p.kind.isVariadic = false) :
    Entries.get? (sig.slotEntries call ++ sig.namedKeyword call) p.name =
      sig.supplied? call p := by
  rw [Entries.get?_append, get?_slotEntries, get?_namedKeyword]
  cases kind : p.kind with
  | positionalOnly =>
    simp [supplied?, kind, isSurplus_of_positionalOnly member kind]
  | positionalOrKeyword =>
    simp [supplied?, kind, isSurplus_eq_false_iff.mpr ⟨p, member, rfl, .inl kind⟩]
  | keywordOnly =>
    have noSlot : sig.slotValue? call p.name = none := by
      cases slot : sig.position? p.name with
      | none => simp [slotValue?, slot]
      | some i =>
        obtain ⟨q, found, same⟩ := position?_eq_some_iff.mp slot
        have positional := mem_positional_iff.mp (List.mem_of_getElem? found)
        cases eq_of_name_eq positional.1 member same
        simp [kind, ParameterKind.isPositional] at positional
    simp [supplied?, kind, noSlot, isSurplus_eq_false_iff.mpr ⟨p, member, rfl, .inr kind⟩]
  | varPositional => simp [kind, ParameterKind.isVariadic] at plain
  | varKeyword => simp [kind, ParameterKind.isVariadic] at plain

theorem boundValue?_eq_supplied? {p : Parameter} (member : p ∈ sig.parameters) :
    sig.boundValue? call ⟨sig.slotEntries call ++ sig.namedKeyword call, sig.surplusKeyword call⟩
      p = sig.supplied? call p := by
  cases h : p.kind.isVariadic with
  | true => cases kind : p.kind <;> simp_all [boundValue?, supplied?, surplusPositional,
      ParameterKind.isVariadic]
  | false =>
    rw [← get?_named member h]
    cases kind : p.kind <;> simp_all [boundValue?, ParameterKind.isVariadic]

theorem keys_arguments : Entries.keys (sig.arguments call) =
    (sig.parameters.filter fun p => (sig.supplied? call p).isSome).map Parameter.name := by
  unfold arguments
  induction sig.parameters with
  | nil => rfl
  | cons p rest ih => cases h : sig.supplied? call p <;> simp [h, ih]

theorem nodup_keys_arguments : (Entries.keys (sig.arguments call)).Nodup := by
  rw [keys_arguments]
  exact sig.nodup_names.sublist (List.filter_sublist.map _)

theorem get?_arguments {p : Parameter} (member : p ∈ sig.parameters) :
    Entries.get? (sig.arguments call) p.name = sig.supplied? call p := by
  cases h : sig.supplied? call p with
  | some value =>
    apply Entries.get?_of_mem nodup_keys_arguments
    exact List.mem_filterMap.mpr ⟨p, member, by simp [h]⟩
  | none =>
    rw [Entries.get?_eq_none_iff, keys_arguments]
    intro supplied
    obtain ⟨q, kept, same⟩ := List.mem_map.mp supplied
    rw [List.mem_filter] at kept
    cases eq_of_name_eq kept.1 member same
    simp [h] at kept

/-- A variadic parameter is never required. -/
theorem isVariadic_of_isRequired {p : Parameter} (required : p.isRequired = true) :
    p.kind.isVariadic = false := by
  simp only [Parameter.isRequired, Bool.and_eq_true, Bool.not_eq_true'] at required
  exact required.2

/-- No required parameter is missing exactly if the call supplies each. -/
theorem find?_missing_eq_none_iff :
    (sig.parameters.find? fun p => p.isRequired &&
      !Entries.contains (sig.slotEntries call ++ sig.namedKeyword call) p.name) = none ↔
    ∀ p ∈ sig.parameters, p.isRequired = true → (sig.supplied? call p).isSome := by
  rw [List.find?_eq_none]
  refine forall₂_congr fun p member => ?_
  cases required : p.isRequired with
  | false => simp
  | true =>
    simp [Entries.contains, get?_named member (isVariadic_of_isRequired required),
      Option.isSome_iff_ne_none]

/-- A call binds exactly if it fits, and then to what it supplies. -/
theorem bind_eq_ok_iff {bound : BoundArguments} :
    sig.bind call = .ok bound ↔ sig.Fits call ∧ bound.entries = sig.arguments call := by
  have collected : (sig.parameters.filterMap fun p =>
      (sig.boundValue? call
        ⟨sig.slotEntries call ++ sig.namedKeyword call, sig.surplusKeyword call⟩ p).map
          fun value => (p.name, value)) = sig.arguments call :=
    List.filterMap_congr fun p member => by rw [boundValue?_eq_supplied? member]
  have result : OrderedMap.ofList (sig.arguments call) = bound ↔
      bound.entries = sig.arguments call := by
    rw [OrderedMap.ext_iff, OrderedMap.entries_ofList nodup_keys_arguments, eq_comm]
  unfold bind
  cases assigned : sig.assign call with
  | error e =>
    simp only [reduceCtorEq, false_iff, not_and]
    intro fits
    have : sig.assign call = .ok _ :=
      assign_eq_ok_iff.mpr ⟨fits.room, fits.surplus, fits.named, rfl⟩
    simp [assigned] at this
  | ok a =>
    obtain ⟨room, surplus, named, rfl⟩ := assign_eq_ok_iff.mp assigned
    simp only [collected]
    cases missing : sig.parameters.find? fun p => p.isRequired &&
        !Entries.contains (sig.slotEntries call ++ sig.namedKeyword call) p.name with
    | some p =>
      simp only [reduceCtorEq, false_iff, not_and]
      intro fits
      rw [find?_missing_eq_none_iff.mpr fits.required] at missing
      cases missing
    | none =>
      have fits : sig.Fits call :=
        ⟨room, surplus, named, find?_missing_eq_none_iff.mp missing⟩
      simp [result, fits]

/-- What a parameter of a bound call is bound to. -/
theorem get?_bound {bound : BoundArguments} (h : sig.bind call = .ok bound) {p : Parameter}
    (member : p ∈ sig.parameters) : bound.get? p.name = sig.supplied? call p := by
  rw [OrderedMap.get?, (bind_eq_ok_iff.mp h).2, get?_arguments member]

/-- Only parameters are bound. -/
theorem exists_parameter_of_bound {bound : BoundArguments} (h : sig.bind call = .ok bound)
    {name : String} (member : name ∈ bound.keys) :
    ∃ p ∈ sig.parameters, p.name = name ∧ (sig.supplied? call p).isSome := by
  rw [OrderedMap.keys, (bind_eq_ok_iff.mp h).2, keys_arguments] at member
  obtain ⟨p, kept, rfl⟩ := List.mem_map.mp member
  rw [List.mem_filter] at kept
  exact ⟨p, kept.1, rfl, kept.2⟩

/-- A variadic positional parameter is bound to a list that is not empty. -/
theorem exists_items_of_supplied? {p : Parameter} {value : Value} (kind : p.kind = .varPositional)
    (supplied : sig.supplied? call p = some value) : ∃ items, value = .list items ∧ items ≠ [] := by
  simp only [supplied?, kind, Option.ite_none_left_eq_some, List.isEmpty_iff,
    Option.some.injEq] at supplied
  exact ⟨_, supplied.2.symm, supplied.1⟩

/-- A variadic keyword parameter is bound to the mapping of the surplus keywords. -/
theorem eq_map_of_supplied? {p : Parameter} {value : Value} (kind : p.kind = .varKeyword)
    (supplied : sig.supplied? call p = some value) : value = .map (sig.surplusKeyword call) := by
  simp only [supplied?, kind, Option.ite_none_left_eq_some, Option.some.injEq] at supplied
  exact supplied.2.symm

/-! ## A call from what it binds -/

theorem slotValue?_of_place {slot : Nat} {p : Parameter}
    (place : sig.positional[slot]? = some p) :
    sig.slotValue? call p.name = call.positional[slot]? := by
  have found := position?_eq_some_iff.mpr ⟨p, place, rfl⟩
  simp [slotValue?, found]

/-- A filled slot is what the call supplies for its parameter. -/
theorem supplied?_of_place {slot : Nat} {p : Parameter} (place : sig.positional[slot]? = some p)
    (filled : slot < call.positional.length) :
    sig.supplied? call p = some call.positional[slot] := by
  have value : sig.slotValue? call p.name = some call.positional[slot] := by
    rw [slotValue?_of_place place, List.getElem?_eq_getElem filled]
  have positional := (mem_positional_iff.mp (List.mem_of_getElem? place)).2
  cases kind : p.kind <;> simp_all [supplied?, ParameterKind.isPositional]

theorem slotValue?_eq_none_congr {other : CallArguments}
    (length : call.positional.length = other.positional.length) (name : String) :
    sig.slotValue? call name = none ↔ sig.slotValue? other name = none := by
  cases h : sig.position? name <;> simp [slotValue?, h, length]

theorem get?_surplusKeyword {name : String} (surplus : sig.isSurplus name = true) :
    Entries.get? (sig.surplusKeyword call) name = call.keyword.get? name := by
  rw [surplusKeyword, Entries.get?_filter sig.isSurplus, if_pos surplus]
  rfl

/-- The surplus keywords are equal where the variadic keyword parameter is supplied alike. -/
theorem surplusKeyword_eq_of_supplied?_eq {other : CallArguments} {p : Parameter}
    (kind : p.kind = .varKeyword) (supplied : sig.supplied? call p = sig.supplied? other p) :
    sig.surplusKeyword call = sig.surplusKeyword other := by
  simp only [supplied?, kind] at supplied
  split at supplied <;> split at supplied <;> simp_all

/-- The tails are equal where the variadic positional parameter is supplied alike. -/
theorem surplusPositional_eq_of_supplied?_eq {other : CallArguments} {p : Parameter}
    (kind : p.kind = .varPositional) (supplied : sig.supplied? call p = sig.supplied? other p) :
    sig.surplusPositional call = sig.surplusPositional other := by
  simp only [supplied?, kind] at supplied
  split at supplied <;> split at supplied <;> simp_all

/-- A call that fits is determined by the keywords it names, in their order, the number of its
    positional arguments, and what it supplies. -/
theorem eq_of_supplied?_eq {other : CallArguments} (fits : sig.Fits call)
    (names : call.keyword.keys = other.keyword.keys)
    (length : call.positional.length = other.positional.length)
    (supplied : ∀ p ∈ sig.parameters, sig.supplied? call p = sig.supplied? other p) :
    call = other := by
  have positional : call.positional = other.positional := by
    refine List.ext_getElem length fun i first second => ?_
    by_cases slot : i < sig.positionalCount
    · have place := List.getElem?_eq_getElem slot
      have same := supplied _ (mem_positional_iff.mp (List.getElem_mem slot)).1
      rw [supplied?_of_place place first, supplied?_of_place place second] at same
      exact Option.some.inj same
    · obtain ⟨p, member, kind⟩ := fits.room.resolve_left (by omega)
      have tails := surplusPositional_eq_of_supplied?_eq kind (supplied p member)
      have same := congrArg (fun tail => tail[i - sig.positionalCount]?) tails
      simp only [surplusPositional, List.getElem?_drop] at same
      rw [Nat.add_sub_of_le (Nat.le_of_not_lt slot)] at same
      simpa [first, second] using same
  have keyword : call.keyword = other.keyword := by
    refine OrderedMap.ext_of_get? names fun name member => ?_
    cases surplus : sig.isSurplus name with
    | true =>
      obtain ⟨p, memberP, kind⟩ := fits.surplus name member surplus
      rw [← get?_surplusKeyword surplus, ← get?_surplusKeyword surplus,
        surplusKeyword_eq_of_supplied?_eq kind (supplied p memberP)]
    | false =>
      obtain ⟨p, memberP, rfl, kind⟩ := isSurplus_eq_false_iff.mp surplus
      have empty := fits.named p.name member surplus
      have empty' := (slotValue?_eq_none_congr length p.name).mp empty
      have same := supplied p memberP
      rcases kind with kind | kind <;> simpa [supplied?, kind, empty, empty'] using same
  cases call
  cases other
  simp_all

end Signature

end CallGuard
