import CallGuard.Proofs.Binding
import CallGuard.Rewriting
import CallGuard.Validation.Validator

/-!
# Rewriting commutes with binding

A replacement that has a place in a call changes what one parameter is bound to and nothing
else.  The step lemma has one case for each way in which a parameter is supplied; a run of
replacements follows from it by induction on their list, and since a call is determined by what
it binds, the order of the list does not matter.
-/

namespace CallGuard

namespace Entries

variable {α : Type}

/-- Writing at a name that a filter refuses is not seen behind the filter. -/
theorem filter_put_of_refused {p : String → Bool} (es : Entries α) {name : String} (v : α)
    (refused : p name = false) :
    (es.put name v).filter (fun entry => p entry.1) = es.filter fun entry => p entry.1 := by
  induction es with
  | nil => simp [put, refused]
  | cons pair rest ih =>
    obtain ⟨k, w⟩ := pair
    by_cases h : k = name
    · simp [put, h, refused]
    · simp [put, h, List.filter_cons, ih]

/-- Writing at a name that a filter keeps is writing behind the filter. -/
theorem filter_put_of_kept {p : String → Bool} (es : Entries α) {name : String} (v : α)
    (kept : p name = true) :
    (es.put name v).filter (fun entry => p entry.1) =
      put (es.filter fun entry => p entry.1) name v := by
  induction es with
  | nil => simp [put, kept]
  | cons pair rest ih =>
    obtain ⟨k, w⟩ := pair
    by_cases h : k = name
    · subst h
      simp [put, kept]
    · cases hk : p k <;> simp [put, h, hk, ih]

theorem filter_putAll_of_kept {p : String → Bool} (es updates : Entries α)
    (kept : ∀ name ∈ keys updates, p name = true) :
    (es.putAll updates).filter (fun entry => p entry.1) =
      putAll (es.filter fun entry => p entry.1) updates := by
  induction updates generalizing es with
  | nil => rfl
  | cons pair rest ih =>
    simp only [keys_cons, List.forall_mem_cons] at kept
    rw [putAll_cons, ih _ kept.2, filter_put_of_kept es pair.2 kept.1, putAll_cons]

end Entries

namespace Signature

/-- A value with a replacement written to it: the mapping of surplus keywords is updated name by
    name, any other value is exchanged. -/
def revised (sig : Signature) (name : String) (old new : Value) : Value :=
  match (sig.parameter? name).map Parameter.kind, old, new.entries? with
  | some .varKeyword, .map entries, some updates => .map (Entries.putAll entries updates)
  | _, _, _ => new

/-- What a parameter is bound to after replacements. -/
def revisedBy (sig : Signature) (replacements : Entries Value) (name : String) (old : Value) :
    Value :=
  match replacements.get? name with
  | some new => sig.revised name old new
  | none => old

/-- Bound arguments with replacements written to them. -/
def revise (sig : Signature) (bound : BoundArguments) (replacements : Replacements) :
    BoundArguments :=
  bound.mapValues (sig.revisedBy replacements.entries)

/-- A replacement that has a place in a call: its parameter is supplied, a tail is replaced by a
    list that is not empty, and surplus keywords by others of the same names. -/
structure Admissible (sig : Signature) (call : CallArguments) (p : Parameter) (value : Value) :
    Prop where
  supplied : (sig.supplied? call p).isSome
  tail : p.kind = .varPositional → ∃ items, value = .list items ∧ items ≠ []
  surplus : p.kind = .varKeyword → ∃ entries, value.entries? = some entries ∧
    ∀ name ∈ Entries.keys entries, name ∈ call.keyword.keys ∧ sig.isSurplus name = true

/-- How a call compares with the one that replacements made of it. -/
structure Rewritten (sig : Signature) (call : CallArguments) (replacements : Entries Value)
    (next : CallArguments) : Prop where
  fits : sig.Fits next
  names : next.keyword.keys = call.keyword.keys
  length : (∀ p ∈ sig.parameters, p.kind = .varPositional → p.name ∉ replacements.keys) →
    next.positional.length = call.positional.length
  supplied : ∀ p ∈ sig.parameters, sig.supplied? next p =
    (sig.supplied? call p).map (sig.revisedBy replacements p.name)

variable {sig : Signature} {call next : CallArguments}

theorem revisedBy_of_some {replacements : Entries Value} {name : String} {new : Value}
    (found : replacements.get? name = some new) :
    sig.revisedBy replacements name = fun old => sig.revised name old new := by
  funext old
  simp [revisedBy, found]

theorem revisedBy_of_none {replacements : Entries Value} {name : String}
    (absent : replacements.get? name = none) : sig.revisedBy replacements name = id := by
  funext old
  simp [revisedBy, absent]

theorem revised_of_varKeyword {p : Parameter} (member : p ∈ sig.parameters)
    (kind : p.kind = .varKeyword) (old new : Entries Value) {value : Value}
    (entries : value.entries? = some new) :
    sig.revised p.name (.map old) value = .map (old.putAll new) := by
  simp [revised, parameter?_of_mem member, kind, entries]

theorem revised_of_not_varKeyword {p : Parameter} (member : p ∈ sig.parameters)
    (kind : p.kind ≠ .varKeyword) (old new : Value) : sig.revised p.name old new = new := by
  cases h : p.kind <;> simp_all [revised, parameter?_of_mem member]

/-- What is supplied for a parameter depends on the places that its kind reads. -/
theorem supplied?_congr {p : Parameter} (member : p ∈ sig.parameters)
    (slot : sig.slotValue? next p.name = sig.slotValue? call p.name)
    (keyword : sig.isSurplus p.name = false →
      next.keyword.get? p.name = call.keyword.get? p.name)
    (tail : p.kind = .varPositional → sig.surplusPositional next = sig.surplusPositional call)
    (surplus : p.kind = .varKeyword → sig.surplusKeyword next = sig.surplusKeyword call) :
    sig.supplied? next p = sig.supplied? call p := by
  cases kind : p.kind with
  | positionalOnly => simp [supplied?, kind, slot]
  | positionalOrKeyword =>
    have taken := isSurplus_eq_false_iff.mpr ⟨p, member, rfl, .inl kind⟩
    simp [supplied?, kind, slot, keyword taken]
  | keywordOnly =>
    have taken := isSurplus_eq_false_iff.mpr ⟨p, member, rfl, .inr kind⟩
    simp [supplied?, kind, keyword taken]
  | varPositional => simp [supplied?, kind, tail kind]
  | varKeyword => simp [supplied?, kind, surplus kind]

/-- Replacing what one parameter is bound to: the other parameters are supplied as before, and
    slots that were filled are filled still. -/
theorem Rewritten.single {p : Parameter} {value : Value} (fits : sig.Fits call)
    (member : p ∈ sig.parameters) (names : next.keyword.keys = call.keyword.keys)
    (length : p.kind ≠ .varPositional → next.positional.length = call.positional.length)
    (slots : ∀ name, sig.slotValue? next name = none ↔ sig.slotValue? call name = none)
    (own : sig.supplied? next p = (sig.supplied? call p).map fun old =>
      sig.revised p.name old value)
    (others : ∀ q ∈ sig.parameters, q ≠ p → sig.supplied? next q = sig.supplied? call q) :
    sig.Rewritten call [(p.name, value)] next := by
  have supplied : ∀ q ∈ sig.parameters, sig.supplied? next q =
      (sig.supplied? call q).map (sig.revisedBy [(p.name, value)] q.name) := by
    intro q memberQ
    by_cases same : q = p
    · subst same
      rw [own, revisedBy_of_some (Entries.get?_cons_self _ _ _)]
    · have different : p.name ≠ q.name := fun h => same (eq_of_name_eq memberQ member h.symm)
      rw [others q memberQ same, revisedBy_of_none (Entries.get?_cons_of_ne _ _ different),
        Option.map_id, id]
  refine ⟨⟨?_, ?_, ?_, ?_⟩, names, ?_, supplied⟩
  · by_cases kind : p.kind = .varPositional
    · exact .inr ⟨p, member, kind⟩
    · rw [length kind]
      exact fits.room
  · rw [names]
    exact fits.surplus
  · intro name named taken
    rw [slots]
    exact fits.named name (names ▸ named) taken
  · intro q memberQ required
    rw [supplied q memberQ, Option.isSome_map]
    exact fits.required q memberQ required
  · intro absent
    exact length fun kind => absent p member kind (by simp)

/-- Calls with the same keywords have the same surplus keywords. -/
theorem keys_surplusKeyword_congr (names : next.keyword.keys = call.keyword.keys) :
    Entries.keys (sig.surplusKeyword next) = Entries.keys (sig.surplusKeyword call) := by
  simp only [surplusKeyword, Entries.keys_filter sig.isSurplus]
  exact congrArg _ names

/-! ## One replacement -/

/-- A keyword of the call that names a parameter is overwritten in place. -/
theorem rewritten_setKeyword {p : Parameter} (fits : sig.Fits call) (member : p ∈ sig.parameters)
    (kind : p.kind = .positionalOrKeyword ∨ p.kind = .keywordOnly)
    (named : p.name ∈ call.keyword.keys) (value : Value) :
    sig.Rewritten call [(p.name, value)] (call.setKeyword p.name value) := by
  have taken := isSurplus_eq_false_iff.mpr ⟨p, member, rfl, kind⟩
  have noSlot := fits.named p.name named taken
  have found : ∃ old, call.keyword.get? p.name = some old :=
    Option.isSome_iff_exists.mp (OrderedMap.isSome_get?_iff.mpr named)
  obtain ⟨old, found⟩ := found
  have surplus : sig.surplusKeyword (call.setKeyword p.name value) = sig.surplusKeyword call :=
    Entries.filter_put_of_refused _ value taken
  refine .single fits member (Entries.keys_put_of_mem named value) (fun _ => rfl)
    (fun _ => Iff.rfl) ?_ fun q memberQ different => ?_
  · have written : (call.setKeyword p.name value).keyword.get? p.name = some value :=
      OrderedMap.get?_insert_self _ _ _
    have noSlot' : sig.slotValue? (call.setKeyword p.name value) p.name = none := noSlot
    rcases kind with kind | kind <;>
      simp [supplied?, kind, noSlot, noSlot', found, written,
        revised_of_not_varKeyword member (by simp [kind] : p.kind ≠ .varKeyword)]
  · have names : q.name ≠ p.name := fun h => different (eq_of_name_eq memberQ member h)
    exact supplied?_congr memberQ rfl (fun _ => OrderedMap.get?_insert_of_ne _ _ names)
      (fun _ => rfl) (fun _ => surplus)

/-- A filled slot is overwritten in place. -/
theorem rewritten_replaceSlot {p : Parameter} (fits : sig.Fits call) (member : p ∈ sig.parameters)
    (positional : p.kind.isPositional) {old : Value}
    (filled : sig.slotValue? call p.name = some old) (value : Value) :
    ∃ next, call.replaceSlot sig p.name value = .ok next ∧
      sig.Rewritten call [(p.name, value)] next := by
  obtain ⟨slot, position⟩ := exists_position? member positional
  have bound : slot < call.positional.length := by
    simp only [slotValue?, position, Option.bind_some] at filled
    exact (List.getElem?_eq_some_iff.mp filled).1
  have plain : p.kind ≠ .varPositional ∧ p.kind ≠ .varKeyword := by
    constructor <;> intro kind <;> simp [kind, ParameterKind.isPositional] at positional
  refine ⟨{ call with positional := call.positional.set slot value },
    by simp [CallArguments.replaceSlot, position, bound], ?_⟩
  refine .single fits member rfl (fun _ => by simp) (fun name => ?_) ?_
    fun q memberQ different => ?_
  · cases h : sig.position? name <;> simp [slotValue?, h]
  · have written : sig.slotValue? { call with positional := call.positional.set slot value }
        p.name = some value := by simp [slotValue?, position, bound]
    cases kind : p.kind <;> simp_all [supplied?, ParameterKind.isPositional,
      revised_of_not_varKeyword member]
  · refine supplied?_congr memberQ ?_ (fun _ => rfl) (fun _ => ?_) (fun _ => rfl)
    · cases h : sig.position? q.name with
      | none => simp [slotValue?, h]
      | some other =>
        have apart : slot ≠ other := by
          intro equal
          subst equal
          exact different (eq_of_name_eq memberQ member (position?_injective h position))
        simp [slotValue?, h, apart]
    · exact List.drop_set_of_lt (position?_lt position)

/-- The tail of positional arguments is replaced as a whole. -/
theorem rewritten_tail {p : Parameter} (fits : sig.Fits call) (member : p ∈ sig.parameters)
    (kind : p.kind = .varPositional) (supplied : (sig.supplied? call p).isSome)
    {items : List Value} (nonempty : items ≠ []) :
    sig.Rewritten call [(p.name, .list items)]
      { call with positional := call.positional.take sig.positionalCount ++ items } := by
  have long : sig.positionalCount < call.positional.length := by
    by_contra short
    have empty : sig.surplusPositional call = [] := List.drop_eq_nil_of_le (by omega)
    simp [supplied?, kind, empty] at supplied
  have slots : ∀ name, sig.slotValue?
      { call with positional := call.positional.take sig.positionalCount ++ items } name =
      sig.slotValue? call name := by
    intro name
    cases h : sig.position? name with
    | none => simp [slotValue?, h]
    | some slot =>
      have bound := position?_lt h
      simp only [slotValue?, h, Option.bind_some]
      rw [List.getElem?_append_left (by simp; omega), List.getElem?_take_of_lt bound]
  refine .single fits member rfl (fun plain => absurd kind plain)
    (fun name => by rw [slots]) ?_ fun q memberQ different => ?_
  · obtain ⟨old, found⟩ := Option.isSome_iff_exists.mp supplied
    rw [found]
    have tail : sig.surplusPositional
        { call with positional := call.positional.take sig.positionalCount ++ items } = items :=
      List.drop_left' (by simp; omega)
    simp [supplied?, kind, tail, nonempty,
      revised_of_not_varKeyword member (by simp [kind] : p.kind ≠ .varKeyword)]
  · exact supplied?_congr memberQ (slots q.name) (fun _ => rfl)
      (fun kindQ => absurd (eq_of_varPositional memberQ member kindQ kind) different)
      (fun _ => rfl)

/-- Surplus keywords are overwritten name by name. -/
theorem rewritten_surplus {p : Parameter} (fits : sig.Fits call) (member : p ∈ sig.parameters)
    (kind : p.kind = .varKeyword) (supplied : (sig.supplied? call p).isSome) {value : Value}
    {entries : Entries Value} (mapping : value.entries? = some entries)
    (surplus : ∀ name ∈ entries.keys, name ∈ call.keyword.keys ∧ sig.isSurplus name = true) :
    sig.Rewritten call [(p.name, value)]
      { call with keyword := call.keyword.insertAll entries } := by
  have names : (call.keyword.insertAll entries).keys = call.keyword.keys :=
    Entries.keys_putAll_of_subset fun name member => (surplus name member).1
  have kept : sig.surplusKeyword { call with keyword := call.keyword.insertAll entries } =
      (sig.surplusKeyword call).putAll entries :=
    Entries.filter_putAll_of_kept _ _ fun name member => (surplus name member).2
  refine .single fits member names (fun _ => rfl) (fun _ => Iff.rfl) ?_
    fun q memberQ different => ?_
  · have present : sig.surplusKeyword call ≠ [] := by
      intro empty
      simp [supplied?, kind, empty] at supplied
    have occupied : (sig.surplusKeyword call).putAll entries ≠ [] := by
      intro empty
      have same : Entries.keys (sig.surplusKeyword
          { call with keyword := call.keyword.insertAll entries }) =
          Entries.keys (sig.surplusKeyword call) := keys_surplusKeyword_congr names
      rw [kept, empty] at same
      exact present (List.map_eq_nil_iff.mp same.symm)
    simp [supplied?, kind, kept, present, occupied, revised_of_varKeyword member kind _ _ mapping]
  · refine supplied?_congr memberQ rfl (fun taken => ?_) (fun _ => rfl)
      (fun kindQ => absurd (eq_of_varKeyword memberQ member kindQ kind) different)
    have absent : Entries.get? entries.reverse q.name = none := by
      rw [Entries.get?_eq_none_iff]
      intro memberN
      have := (surplus q.name (by simpa [Entries.keys] using memberN)).2
      simp [taken] at this
    change Entries.get? (call.keyword.entries.putAll entries) q.name = _
    rw [Entries.get?_putAll, absent, Option.none_or]
    rfl

/-- A replacement that has a place is written there and nowhere else. -/
theorem exists_replace {p : Parameter} {value : Value} (fits : sig.Fits call)
    (member : p ∈ sig.parameters) (admissible : sig.Admissible call p value) :
    ∃ next, call.replace sig p.name value = .ok next ∧
      sig.Rewritten call [(p.name, value)] next := by
  obtain ⟨old, found⟩ := Option.isSome_iff_exists.mp admissible.supplied
  simp only [CallArguments.replace, parameter?_of_mem member, Option.map_some]
  cases kind : p.kind with
  | positionalOnly =>
    have filled : sig.slotValue? call p.name = some old := by simpa [supplied?, kind] using found
    exact rewritten_replaceSlot fits member (by simp [kind, ParameterKind.isPositional]) filled
      value
  | positionalOrKeyword =>
    by_cases named : p.name ∈ call.keyword.keys
    · have contains : call.keyword.contains p.name = true := OrderedMap.contains_iff.mpr named
      exact ⟨_, by simp [contains], rewritten_setKeyword fits member (.inl kind) named value⟩
    · have contains : call.keyword.contains p.name = false := by
        rw [← Bool.not_eq_true, OrderedMap.contains_iff]
        exact named
      have filled : sig.slotValue? call p.name = some old := by
        rw [← OrderedMap.get?_eq_none_iff] at named
        simpa [supplied?, kind, named] using found
      simpa [contains] using rewritten_replaceSlot fits member
        (by simp [kind, ParameterKind.isPositional]) filled value
  | keywordOnly =>
    have named : p.name ∈ call.keyword.keys := by
      rw [← OrderedMap.isSome_get?_iff]
      simpa [supplied?, kind] using admissible.supplied
    have contains : call.keyword.contains p.name = true := OrderedMap.contains_iff.mpr named
    exact ⟨_, by simp [contains], rewritten_setKeyword fits member (.inr kind) named value⟩
  | varPositional =>
    obtain ⟨items, rfl, nonempty⟩ := admissible.tail kind
    exact ⟨_, rfl, rewritten_tail fits member kind admissible.supplied nonempty⟩
  | varKeyword =>
    obtain ⟨entries, mapping, surplus⟩ := admissible.surplus kind
    exact ⟨_, by simp [mapping],
      rewritten_surplus fits member kind admissible.supplied mapping surplus⟩

/-! ## A run of replacements -/

/-- An admissible replacement stays admissible while other parameters are replaced. -/
theorem Admissible.of_rewritten {replacements : Entries Value} {p : Parameter} {value : Value}
    (admissible : sig.Admissible call p value) (member : p ∈ sig.parameters)
    (rewritten : sig.Rewritten call replacements next) : sig.Admissible next p value where
  supplied := by
    rw [rewritten.supplied p member, Option.isSome_map]
    exact admissible.supplied
  tail := admissible.tail
  surplus := by
    rw [rewritten.names]
    exact admissible.surplus

theorem Rewritten.nil (fits : sig.Fits call) : sig.Rewritten call [] call where
  fits := fits
  names := rfl
  length := fun _ => rfl
  supplied := fun p _ => by rw [revisedBy_of_none rfl, Option.map_id, id]

/-- A replacement followed by others of other names. -/
theorem Rewritten.cons {last : CallArguments} {name : String} {value : Value}
    {rest : Entries Value} (first : sig.Rewritten call [(name, value)] next)
    (others : sig.Rewritten next rest last) (fresh : name ∉ rest.keys) :
    sig.Rewritten call ((name, value) :: rest) last where
  fits := others.fits
  names := others.names.trans first.names
  length := by
    intro absent
    refine (others.length fun p member kind => ?_).trans (first.length fun p member kind => ?_)
    · exact fun named => absent p member kind (List.mem_cons_of_mem _ named)
    · intro named
      simp only [Entries.keys_cons, Entries.keys_nil, List.mem_singleton] at named
      exact absent p member kind (by simp [named])
  supplied := by
    intro p member
    rw [others.supplied p member, first.supplied p member]
    by_cases same : name = p.name
    · subst same
      rw [revisedBy_of_none (Entries.get?_eq_none_iff.mpr fresh), Option.map_id, id,
        revisedBy_of_some (Entries.get?_cons_self _ _ _),
        revisedBy_of_some (Entries.get?_cons_self _ _ _)]
    · have head : sig.revisedBy [(name, value)] p.name = id :=
        revisedBy_of_none (by simp [Entries.get?_cons_of_ne _ _ same])
      have tail : sig.revisedBy ((name, value) :: rest) p.name = sig.revisedBy rest p.name := by
        funext old
        simp [revisedBy, Entries.get?_cons_of_ne _ _ same]
      rw [head, tail, Option.map_id, id]

/-- Replacements of different parameters that all have a place are written one after another,
    and none is ignored. -/
theorem rewritten_replaceAll {replacements : Entries Value} (fits : sig.Fits call)
    (distinct : replacements.keys.Nodup)
    (admissible : ∀ name value, (name, value) ∈ replacements → ∃ p ∈ sig.parameters,
      p.name = name ∧ sig.Admissible call p value) :
    sig.Rewritten call replacements (call.replaceAll sig replacements).1 ∧
      (call.replaceAll sig replacements).2 = [] := by
  induction replacements generalizing call with
  | nil => exact ⟨.nil fits, rfl⟩
  | cons pair rest ih =>
    obtain ⟨name, value⟩ := pair
    obtain ⟨fresh, later⟩ := List.nodup_cons.mp distinct
    obtain ⟨p, member, rfl, here⟩ := admissible name value (by simp)
    obtain ⟨next, replaced, first⟩ := exists_replace fits member here
    have continued : call.replaceAll sig ((p.name, value) :: rest) = next.replaceAll sig rest := by
      simp [CallArguments.replaceAll, replaced]
    rw [continued]
    obtain ⟨others, ignored⟩ := ih first.fits later fun name value listed => by
      obtain ⟨q, memberQ, same, there⟩ := admissible name value (List.mem_cons_of_mem _ listed)
      exact ⟨q, memberQ, same, there.of_rewritten memberQ first⟩
    exact ⟨first.cons others fresh, ignored⟩

/-- A rewritten call binds to the revised arguments. -/
theorem Rewritten.bind {bound : BoundArguments} {replacements : Replacements}
    (rewritten : sig.Rewritten call replacements.entries next)
    (binds : sig.bind call = .ok bound) : sig.bind next = .ok (sig.revise bound replacements) := by
  refine bind_eq_ok_iff.mpr ⟨rewritten.fits, ?_⟩
  have before := (bind_eq_ok_iff.mp binds).2
  have names : (sig.revise bound replacements).keys = Entries.keys (sig.arguments next) := by
    rw [revise, OrderedMap.keys_mapValues, OrderedMap.keys, before, keys_arguments, keys_arguments]
    congr 1
    refine List.filter_congr fun p member => ?_
    rw [rewritten.supplied p member, Option.isSome_map]
  refine Entries.ext_of_get? (sig.revise bound replacements).nodup names fun name member => ?_
  rw [revise] at member ⊢
  obtain ⟨p, memberP, rfl, -⟩ :=
    exists_parameter_of_bound binds (by rwa [← OrderedMap.keys_mapValues])
  change OrderedMap.get? _ _ = _
  rw [OrderedMap.get?_mapValues, get?_bound binds memberP, get?_arguments memberP,
    rewritten.supplied p memberP]

/-- Calls that supply the same tail of positional arguments are equally long. -/
theorem length_eq_of_tail {p : Parameter} (kind : p.kind = .varPositional)
    (some : (sig.supplied? call p).isSome) (same : sig.supplied? call p = sig.supplied? next p) :
    call.positional.length = next.positional.length := by
  have tails := congrArg List.length (surplusPositional_eq_of_supplied?_eq kind same)
  have nonempty : (sig.surplusPositional call).length ≠ 0 := by
    intro empty
    simp [supplied?, kind, List.length_eq_zero_iff.mp empty] at some
  simp only [surplusPositional, List.length_drop] at tails nonempty
  omega

/-- Replacements that are the same up to order make the same call. -/
theorem Rewritten.unique {other : CallArguments} {replacements permuted : Entries Value}
    (first : sig.Rewritten call replacements next) (second : sig.Rewritten call permuted other)
    (distinct : replacements.keys.Nodup) (perm : replacements.Perm permuted)
    (tails : ∀ p ∈ sig.parameters, p.kind = .varPositional → p.name ∈ replacements.keys →
      (sig.supplied? call p).isSome) : next = other := by
  have supplied : ∀ p ∈ sig.parameters, sig.supplied? next p = sig.supplied? other p := by
    intro p member
    have same : sig.revisedBy replacements p.name = sig.revisedBy permuted p.name := by
      funext old
      simp [revisedBy, Entries.get?_perm perm distinct]
    rw [first.supplied p member, second.supplied p member, same]
  refine eq_of_supplied?_eq first.fits (first.names.trans second.names.symm) ?_ supplied
  by_cases replaced : ∃ p ∈ sig.parameters, p.kind = .varPositional ∧ p.name ∈ replacements.keys
  · obtain ⟨p, member, kind, named⟩ := replaced
    refine length_eq_of_tail kind ?_ (supplied p member)
    rw [first.supplied p member, Option.isSome_map]
    exact tails p member kind named
  · have kept : ∀ p ∈ sig.parameters, p.kind = .varPositional → p.name ∉ replacements.keys :=
      fun p member kind named => replaced ⟨p, member, kind, named⟩
    refine (first.length kept).trans (second.length fun p member kind named => ?_).symm
    exact kept p member kind ((perm.map Prod.fst).mem_iff.mpr named)

/-- Rewriting commutes with binding.  Replacements of bound parameters, a tail by a list that is
    not empty and surplus keywords by others of the same names, give a call that binds to the
    revised arguments.  The keywords stay as they are, the call gets longer or shorter only with
    its tail, and the order of the replacements does not matter. -/
theorem bind_replaceAll {bound : BoundArguments} (binds : sig.bind call = .ok bound)
    (replacements : Replacements) (named : ∀ name ∈ replacements.keys, name ∈ bound.keys)
    (tail : ∀ p ∈ sig.parameters, p.kind = .varPositional → ∀ value,
      replacements.get? p.name = some value → ∃ items, value = .list items ∧ items ≠ [])
    (surplus : ∀ p ∈ sig.parameters, p.kind = .varKeyword → ∀ value,
      replacements.get? p.name = some value → ∃ entries, value.entries? = some entries ∧
        ∀ name ∈ Entries.keys entries, name ∈ call.keyword.keys ∧ sig.isSurplus name = true) :
    sig.bind (call.replaceAll sig replacements.entries).1 =
        .ok (sig.revise bound replacements) ∧
      (sig.revise bound replacements).keys = bound.keys ∧
      (call.replaceAll sig replacements.entries).2 = [] ∧
      (call.replaceAll sig replacements.entries).1.keyword.keys = call.keyword.keys ∧
      ((∀ p ∈ sig.parameters, p.kind = .varPositional → p.name ∉ replacements.keys) →
        (call.replaceAll sig replacements.entries).1.positional.length =
          call.positional.length) ∧
      ∀ permuted : Entries Value, replacements.entries.Perm permuted →
        (call.replaceAll sig permuted).1 = (call.replaceAll sig replacements.entries).1 := by
  have fits := (bind_eq_ok_iff.mp binds).1
  have admissible : ∀ name value, (name, value) ∈ replacements.entries →
      ∃ p ∈ sig.parameters, p.name = name ∧ sig.Admissible call p value := by
    intro name value listed
    have found := OrderedMap.get?_of_mem listed
    obtain ⟨p, member, rfl, supplied⟩ :=
      exists_parameter_of_bound binds (named name (Entries.mem_keys_of_mem listed))
    exact ⟨p, member, rfl, supplied, fun kind => tail p member kind value found,
      fun kind => surplus p member kind value found⟩
  obtain ⟨rewritten, ignored⟩ := rewritten_replaceAll fits replacements.nodup admissible
  refine ⟨rewritten.bind binds, OrderedMap.keys_mapValues _ _, ignored, rewritten.names,
    rewritten.length, fun permuted perm => ?_⟩
  have distinct : (Entries.keys permuted).Nodup :=
    (perm.map Prod.fst).nodup_iff.mp replacements.nodup
  have second := rewritten_replaceAll fits distinct fun name value listed =>
    admissible name value (perm.mem_iff.mpr listed)
  refine (rewritten.unique second.1 replacements.nodup perm fun p member _ listed => ?_).symm
  obtain ⟨q, memberQ, same, supplied⟩ := exists_parameter_of_bound binds (named p.name listed)
  rwa [eq_of_name_eq memberQ member same] at supplied

/-- A function of one parameter of each kind, the first one positional-only. -/
def mixed : Signature where
  parameters := [⟨"a", .positionalOnly, none, none⟩, ⟨"b", .positionalOrKeyword, none, none⟩,
    ⟨"rest", .varPositional, none, none⟩, ⟨"k", .keywordOnly, none, none⟩,
    ⟨"options", .varKeyword, none, none⟩]
  returns := none
  orderly := by decide

/-- Surplus keywords may bear the names of a positional-only and of a variadic parameter. -/
theorem bind_replaceAll_mixed :
    let call : CallArguments := ⟨[.int 1, .int 2, .int 3, .int 4],
      .ofList [("a", .int 5), ("k", .int 6), ("rest", .int 7)]⟩
    let bound : BoundArguments := .ofList [("a", .int 1), ("b", .int 2),
      ("rest", .list [.int 3, .int 4]), ("k", .int 6),
      ("options", .map [("a", .int 5), ("rest", .int 7)])]
    let replacements : Replacements := .ofList [("options", .record "R" [("a", .int 50)]),
      ("rest", .list [.int 30]), ("k", .int 60), ("a", .int 10)]
    mixed.bind call = .ok bound ∧
      mixed.bind (call.replaceAll mixed replacements.entries).1 =
        .ok (.ofList [("a", .int 10), ("b", .int 2), ("rest", .list [.int 30]), ("k", .int 60),
          ("options", .map [("a", .int 50), ("rest", .int 7)])]) := by
  intro call bound replacements
  have binds : mixed.bind call = .ok bound := rfl
  refine ⟨binds, (bind_replaceAll binds replacements (by decide) ?_ ?_).1⟩
  · intro p member kind value found
    have rest : ⟨"rest", .varPositional, none, none⟩ ∈ mixed.parameters := by simp [mixed]
    cases eq_of_varPositional member rest kind rfl
    obtain rfl : Value.list [.int 30] = value := Option.some.inj found
    exact ⟨_, rfl, by simp⟩
  · intro p member kind value found
    have options : ⟨"options", .varKeyword, none, none⟩ ∈ mixed.parameters := by simp [mixed]
    cases eq_of_varKeyword member options kind rfl
    obtain rfl : Value.record "R" [("a", .int 50)] = value := Option.some.inj found
    exact ⟨_, rfl, by decide⟩

end Signature

end CallGuard
