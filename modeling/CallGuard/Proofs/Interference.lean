import CallGuard.Proofs.Rewriting
import CallGuard.Proofs.Supply

/-!
# What replacements disturb

A validator may give replacements of any names with any values.  What they do to a call is told
by a step lemma, with one case for each way to write a replacement, and by induction on their
list.  Two of those ways reach beyond the parameter they are meant for: a new tail may fill slots
that were open, and a mapping written to the keywords may name parameters.  From this follows
exactly when a rewritten call still binds and every other parameter keeps what it had.
-/

namespace CallGuard

/-- What a fold keeps in the first component where its steps do not read the second. -/
theorem foldl_fst_eq {α β γ : Type} {step : α × β → γ → α × β}
    (blind : ∀ a b b' item, (step (a, b) item).1 = (step (a, b') item).1) (items : List γ)
    (a : α) (b b' : β) : (items.foldl step (a, b)).1 = (items.foldl step (a, b')).1 := by
  have kept : ∀ c, (items.foldl step (a, c)).1 =
      items.foldl (fun a item => (step (a, b) item).1) a := fun c =>
    (List.foldl_hom Prod.fst fun x item => blind x.1 b x.2 item).symm
  rw [kept b, kept b']

/-- What replacements make of a call does not depend on those that were ignored before. -/
theorem CallArguments.replaceAll_cons (sig : Signature) (call : CallArguments)
    (pair : String × Value) (rest : Entries Value) : (call.replaceAll sig (pair :: rest)).1 =
      ((call.replaceAll sig [pair]).1.replaceAll sig rest).1 := by
  unfold replaceAll
  rw [List.foldl_cons, List.foldl_cons, List.foldl_nil]
  refine foldl_fst_eq (fun call ignored ignored' item => ?_) rest _ _ _
  cases h : call.replace sig item.1 item.2 <;> simp [h]

namespace Signature

/-- The positional arguments that a replacement puts behind the slots. -/
def tailOf (sig : Signature) (name : String) (value : Value) : List Value :=
  match (sig.parameter? name).map Parameter.kind with
  | some .varPositional => value.asList?.getD []
  | _ => []

/-- The keyword arguments that a replacement of the surplus keywords writes. -/
def keywordsOf (sig : Signature) (name : String) (value : Value) : Entries Value :=
  match (sig.parameter? name).map Parameter.kind with
  | some .varKeyword => value.entries?.getD []
  | _ => []

/-- The positional arguments that replacements put behind the slots. -/
def newTail (sig : Signature) (replacements : Entries Value) : List Value :=
  replacements.flatMap fun pair => sig.tailOf pair.1 pair.2

/-- The keyword arguments that replacements of the surplus keywords write. -/
def newKeywords (sig : Signature) (replacements : Entries Value) : Entries Value :=
  replacements.flatMap fun pair => sig.keywordsOf pair.1 pair.2

/-- What replacements, whatever they are, do to a call. -/
structure Effect (sig : Signature) (call : CallArguments) (replacements : Entries Value)
    (next : CallArguments) : Prop where
  names : ∀ name, name ∈ next.keyword.keys ↔
    name ∈ call.keyword.keys ∨ name ∈ Entries.keys (sig.newKeywords replacements)
  keywords : ∀ name, name ∉ replacements.keys → sig.isSurplus name = false →
    next.keyword.get? name = (call.keyword.insertAll (sig.newKeywords replacements)).get? name
  surplus : (∀ p ∈ sig.parameters, p.kind = .varKeyword → p.name ∉ replacements.keys) →
    sig.surplusKeyword next = sig.surplusKeyword call
  length : next.positional.length = call.positional.length ∧ sig.newTail replacements = [] ∨
    next.positional.length = min sig.positionalCount call.positional.length +
      (sig.newTail replacements).length
  slots : ∀ name, name ∉ replacements.keys → (sig.slotValue? call name).isSome →
    sig.slotValue? next name = sig.slotValue? call name
  tail : (∀ p ∈ sig.parameters, p.kind = .varPositional → p.name ∉ replacements.keys) →
    next.positional.length = call.positional.length ∧
      sig.surplusPositional next = sig.surplusPositional call

variable {sig : Signature} {call next : CallArguments} {p : Parameter} {name : String}
  {value : Value} {replacements : Entries Value}

theorem tailOf_of_mem (member : p ∈ sig.parameters) :
    sig.tailOf p.name value = if p.kind = .varPositional then value.asList?.getD [] else [] := by
  cases kind : p.kind <;> simp [tailOf, parameter?_of_mem member, kind]

theorem keywordsOf_of_mem (member : p ∈ sig.parameters) :
    sig.keywordsOf p.name value = if p.kind = .varKeyword then value.entries?.getD [] else [] := by
  cases kind : p.kind <;> simp [keywordsOf, parameter?_of_mem member, kind]

@[simp] theorem newTail_singleton : sig.newTail [(name, value)] = sig.tailOf name value := by
  simp [newTail]

@[simp] theorem newKeywords_singleton :
    sig.newKeywords [(name, value)] = sig.keywordsOf name value := by simp [newKeywords]

theorem newTail_cons (pair : String × Value) (rest : Entries Value) :
    sig.newTail (pair :: rest) = sig.newTail [pair] ++ sig.newTail rest := by simp [newTail]

theorem newKeywords_cons (pair : String × Value) (rest : Entries Value) :
    sig.newKeywords (pair :: rest) = sig.newKeywords [pair] ++ sig.newKeywords rest := by
  simp [newKeywords]

/-- Only a replacement of the variadic positional parameter puts arguments behind the slots. -/
theorem exists_of_newTail (new : sig.newTail replacements ≠ []) :
    ∃ p ∈ sig.parameters, p.kind = .varPositional ∧ p.name ∈ replacements.keys := by
  obtain ⟨item, inside⟩ := List.exists_mem_of_ne_nil _ new
  obtain ⟨pair, listed, inside⟩ := List.mem_flatMap.mp inside
  cases found : sig.parameter? pair.1 with
  | none => simp [tailOf, found] at inside
  | some p =>
    obtain ⟨member, same⟩ := parameter?_eq_some_iff.mp found
    rw [← same, tailOf_of_mem member] at inside
    split at inside
    next kind => exact ⟨p, member, kind, same ▸ Entries.mem_keys_of_mem listed⟩
    next => cases inside

/-- Only a replacement of the variadic keyword parameter writes keywords that are not there. -/
theorem exists_of_newKeywords (new : name ∈ Entries.keys (sig.newKeywords replacements)) :
    ∃ p ∈ sig.parameters, p.kind = .varKeyword ∧ p.name ∈ replacements.keys := by
  obtain ⟨entry, inside, -⟩ := List.mem_map.mp new
  obtain ⟨pair, listed, inside⟩ := List.mem_flatMap.mp inside
  cases found : sig.parameter? pair.1 with
  | none => simp [keywordsOf, found] at inside
  | some p =>
    obtain ⟨member, same⟩ := parameter?_eq_some_iff.mp found
    rw [← same, keywordsOf_of_mem member] at inside
    split at inside
    next kind => exact ⟨p, member, kind, same ▸ Entries.mem_keys_of_mem listed⟩
    next => cases inside

/-! ## One replacement -/

/-- Replacements that leave the positional arguments alone and put none behind the slots. -/
theorem Effect.of_positional_eq (same : next.positional = call.positional)
    (noTail : sig.newTail replacements = [])
    (names : ∀ name, name ∈ next.keyword.keys ↔
      name ∈ call.keyword.keys ∨ name ∈ Entries.keys (sig.newKeywords replacements))
    (keywords : ∀ name, name ∉ replacements.keys → sig.isSurplus name = false →
      next.keyword.get? name = (call.keyword.insertAll (sig.newKeywords replacements)).get? name)
    (surplus : (∀ p ∈ sig.parameters, p.kind = .varKeyword → p.name ∉ replacements.keys) →
      sig.surplusKeyword next = sig.surplusKeyword call) :
    sig.Effect call replacements next where
  names := names
  keywords := keywords
  surplus := surplus
  length := .inl ⟨congrArg List.length same, noTail⟩
  slots := fun name _ _ => by rw [slotValue?, slotValue?, same]
  tail := fun _ => ⟨congrArg List.length same, by rw [surplusPositional, surplusPositional, same]⟩

/-- Replacements that leave the keywords alone and write none. -/
theorem Effect.of_keyword_eq (same : next.keyword = call.keyword)
    (noKeywords : sig.newKeywords replacements = [])
    (length : next.positional.length = call.positional.length ∧ sig.newTail replacements = [] ∨
      next.positional.length = min sig.positionalCount call.positional.length +
        (sig.newTail replacements).length)
    (slots : ∀ name, name ∉ replacements.keys → (sig.slotValue? call name).isSome →
      sig.slotValue? next name = sig.slotValue? call name)
    (tail : (∀ p ∈ sig.parameters, p.kind = .varPositional → p.name ∉ replacements.keys) →
      next.positional.length = call.positional.length ∧
        sig.surplusPositional next = sig.surplusPositional call) :
    sig.Effect call replacements next where
  names := fun name => by simp [same, noKeywords]
  keywords := fun name _ _ => by
    rw [same, noKeywords]
    rfl
  surplus := fun _ => by rw [surplusKeyword, surplusKeyword, same]
  length := length
  slots := slots
  tail := tail

/-- Replacements that change nothing. -/
theorem Effect.idle (noTail : sig.newTail replacements = [])
    (noKeywords : sig.newKeywords replacements = []) : sig.Effect call replacements call :=
  .of_keyword_eq rfl noKeywords (.inl ⟨rfl, noTail⟩) (fun _ _ _ => rfl) fun _ => ⟨rfl, rfl⟩

/-- A keyword of the call that names a parameter is overwritten. -/
theorem effect_setKeyword (member : p ∈ sig.parameters)
    (kind : p.kind = .positionalOrKeyword ∨ p.kind = .keywordOnly)
    (named : p.name ∈ call.keyword.keys) :
    sig.Effect call [(p.name, value)] (call.setKeyword p.name value) := by
  have taken := isSurplus_eq_false_iff.mpr ⟨p, member, rfl, kind⟩
  have noKeywords : sig.newKeywords [(p.name, value)] = [] := by
    rcases kind with kind | kind <;> simp [keywordsOf_of_mem member, kind]
  refine .of_positional_eq rfl ?_ (fun name => ?_) (fun name different _ => ?_) fun _ => ?_
  · rcases kind with kind | kind <;> simp [tailOf_of_mem member, kind]
  · have kept : (call.setKeyword p.name value).keyword.keys = call.keyword.keys :=
      Entries.keys_put_of_mem named value
    simp [kept, noKeywords]
  · rw [noKeywords]
    simp only [Entries.keys_cons, Entries.keys_nil, List.mem_singleton] at different
    exact OrderedMap.get?_insert_of_ne _ _ different
  · exact Entries.filter_put_of_refused _ value taken

/-- A filled slot is overwritten, an open one stays open. -/
theorem effect_replaceSlot (member : p ∈ sig.parameters) (positional : p.kind.isPositional = true) :
    sig.Effect call [(p.name, value)] (match call.replaceSlot sig p.name value with
      | .ok next => next
      | .error _ => call) := by
  have plain : p.kind ≠ .varPositional ∧ p.kind ≠ .varKeyword := by
    constructor <;> intro kind <;> simp [kind, ParameterKind.isPositional] at positional
  have noTail : sig.newTail [(p.name, value)] = [] := by simp [tailOf_of_mem member, plain]
  have noKeywords : sig.newKeywords [(p.name, value)] = [] := by
    simp [keywordsOf_of_mem member, plain]
  obtain ⟨slot, position⟩ := exists_position? member positional
  simp only [CallArguments.replaceSlot, position]
  split
  next next replaced =>
    split at replaced
    next bound =>
      cases replaced
      refine .of_keyword_eq rfl noKeywords (.inl ⟨by simp, noTail⟩)
        (fun name different _ => ?_) fun _ => ⟨by simp, List.drop_set_of_lt (position?_lt position)⟩
      simp only [Entries.keys_cons, Entries.keys_nil, List.mem_singleton] at different
      cases h : sig.position? name with
      | none => simp [slotValue?, h]
      | some other =>
        have apart : slot ≠ other := by
          rintro rfl
          exact different (position?_injective h position)
        simp [slotValue?, h, apart]
    next => cases replaced
  next => exact .idle noTail noKeywords

/-- Arguments are put behind the slots, or behind the arguments where those are fewer. -/
theorem effect_tail (member : p ∈ sig.parameters) (kind : p.kind = .varPositional)
    {items : List Value} (list : value.asList? = some items) :
    sig.Effect call [(p.name, value)]
      { call with positional := call.positional.take sig.positionalCount ++ items } := by
  have tail : sig.newTail [(p.name, value)] = items := by simp [tailOf_of_mem member, kind, list]
  refine .of_keyword_eq rfl ?_ (.inr ?_) (fun name _ filled => ?_) fun absent => ?_
  · simp [keywordsOf_of_mem member, kind]
  · rw [tail, List.length_append, List.length_take]
  · cases h : sig.position? name with
    | none => simp [slotValue?, h]
    | some slot =>
      have bound : slot < call.positional.length := by
        simpa [slotValue?, h] using filled
      have below := position?_lt h
      simp only [slotValue?, h, Option.bind_some]
      rw [List.getElem?_append_left (by simp; omega), List.getElem?_take_of_lt below]
  · exact absurd (by simp) (absent p member kind)

/-- Keywords are written, whatever they name. -/
theorem effect_insertAll (member : p ∈ sig.parameters) (kind : p.kind = .varKeyword)
    {entries : Entries Value} (mapping : value.entries? = some entries) :
    sig.Effect call [(p.name, value)]
      { call with keyword := call.keyword.insertAll entries } := by
  have keywords : sig.newKeywords [(p.name, value)] = entries := by
    simp [keywordsOf_of_mem member, kind, mapping]
  refine .of_positional_eq rfl ?_ (fun name => ?_) (fun name _ _ => ?_) fun absent => ?_
  · simp [tailOf_of_mem member, kind]
  · rw [keywords]
    exact Entries.mem_keys_putAll_iff
  · rw [keywords]
  · exact absurd (by simp) (absent p member kind)

/-- A replacement of any name with any value has the effect of what it puts behind the slots and
    writes to the keywords. -/
theorem effect_replace (sig : Signature) (call : CallArguments) (name : String) (value : Value) :
    sig.Effect call [(name, value)] (call.replaceAll sig [(name, value)]).1 := by
  have single : (call.replaceAll sig [(name, value)]).1 =
      match call.replace sig name value with
      | .ok next => next
      | .error _ => call := by
    simp only [CallArguments.replaceAll, List.foldl_cons, List.foldl_nil]
    cases call.replace sig name value <;> rfl
  rw [single]
  cases found : sig.parameter? name with
  | none =>
    simp only [CallArguments.replace, found, Option.map_none]
    exact .idle (by simp [tailOf, found]) (by simp [keywordsOf, found])
  | some p =>
    obtain ⟨member, rfl⟩ := parameter?_eq_some_iff.mp found
    simp only [CallArguments.replace, found, Option.map_some]
    cases kind : p.kind with
    | positionalOnly =>
      exact effect_replaceSlot member (by simp [kind, ParameterKind.isPositional])
    | positionalOrKeyword =>
      cases contained : call.keyword.contains p.name with
      | true =>
        exact effect_setKeyword member (.inl kind) (OrderedMap.contains_iff.mp contained)
      | false =>
        exact effect_replaceSlot member (by simp [kind, ParameterKind.isPositional])
    | keywordOnly =>
      cases contained : call.keyword.contains p.name with
      | true =>
        exact effect_setKeyword member (.inr kind) (OrderedMap.contains_iff.mp contained)
      | false =>
        exact .idle (by simp [tailOf_of_mem member, kind])
          (by simp [keywordsOf_of_mem member, kind])
    | varPositional =>
      cases list : value.asList? with
      | some items => exact effect_tail member kind list
      | none =>
        exact .idle (by simp [tailOf_of_mem member, list])
          (by simp [keywordsOf_of_mem member, kind])
    | varKeyword =>
      cases mapping : value.entries? with
      | some entries => exact effect_insertAll member kind mapping
      | none =>
        exact .idle (by simp [tailOf_of_mem member, kind])
          (by simp [keywordsOf_of_mem member, mapping])

/-! ## A run of replacements -/

/-- A run of replacements of different names puts a tail behind the slots at most once. -/
theorem Effect.length_cons {last : CallArguments} {pair : String × Value} {rest : Entries Value}
    (first : sig.Effect call [pair] next) (others : sig.Effect next rest last)
    (fresh : pair.1 ∉ rest.keys) :
    last.positional.length = call.positional.length ∧ sig.newTail (pair :: rest) = [] ∨
      last.positional.length = min sig.positionalCount call.positional.length +
        (sig.newTail (pair :: rest)).length := by
  rw [newTail_cons pair rest]
  by_cases tailed : sig.newTail [pair] = []
  · rw [tailed, List.nil_append]
    rcases first.length with ⟨same, -⟩ | cut
    · rw [← same]
      exact others.length
    · rw [tailed] at cut
      rcases others.length with ⟨same, noTail⟩ | cut'
      · exact .inr (by rw [same, cut, noTail])
      · exact .inr (by rw [cut', cut]; simp)
  · -- The first replacement is that of the variadic parameter, so no other one is.
    obtain ⟨p, member, kind, named⟩ := exists_of_newTail tailed
    have untouched : ∀ q ∈ sig.parameters, q.kind = .varPositional → q.name ∉ rest.keys := by
      intro q memberQ kindQ
      cases eq_of_varPositional memberQ member kindQ kind
      rw [List.mem_singleton.mp named]
      exact fresh
    have noTail : sig.newTail rest = [] := by
      by_contra new
      obtain ⟨q, memberQ, kindQ, namedQ⟩ := exists_of_newTail new
      exact untouched q memberQ kindQ namedQ
    rw [noTail, List.append_nil, (others.tail untouched).1]
    exact .inr (first.length.resolve_left fun left => tailed left.2)

/-- One replacement followed by others of other names. -/
theorem Effect.cons {last : CallArguments} {pair : String × Value} {rest : Entries Value}
    (first : sig.Effect call [pair] next) (others : sig.Effect next rest last)
    (fresh : pair.1 ∉ rest.keys) : sig.Effect call (pair :: rest) last := by
  have apart : ∀ {name : String}, name ∉ Entries.keys (pair :: rest) →
      name ∉ Entries.keys [pair] ∧ name ∉ rest.keys := by simp
  refine ⟨fun name => ?_, fun name different taken => ?_, fun absent => ?_,
    first.length_cons others fresh, fun name different filled => ?_, fun absent => ?_⟩
  · rw [others.names, first.names, newKeywords_cons pair rest, Entries.keys_append,
      List.mem_append, or_assoc]
  · rw [others.keywords name (apart different).2 taken, newKeywords_cons pair rest]
    have before := first.keywords name (apart different).1 taken
    simp only [OrderedMap.get?, OrderedMap.insertAll] at before ⊢
    rw [Entries.putAll_append, Entries.get?_putAll, before, ← Entries.get?_putAll]
  · exact (others.surplus fun p member kind => (apart (absent p member kind)).2).trans
      (first.surplus fun p member kind => (apart (absent p member kind)).1)
  · have kept := first.slots name (apart different).1 filled
    rw [others.slots name (apart different).2 (by rwa [kept]), kept]
  · have before := first.tail fun p member kind => (apart (absent p member kind)).1
    have after := others.tail fun p member kind => (apart (absent p member kind)).2
    exact ⟨after.1.trans before.1, after.2.trans before.2⟩

/-- Replacements of different names, whatever they are, have the effect of what they put behind the
    slots and write to the keywords. -/
theorem effect_replaceAll (distinct : replacements.keys.Nodup) :
    sig.Effect call replacements (call.replaceAll sig replacements).1 := by
  induction replacements generalizing call with
  | nil => exact .idle rfl rfl
  | cons pair rest ih =>
    obtain ⟨fresh, later⟩ := List.nodup_cons.mp distinct
    rw [CallArguments.replaceAll_cons]
    exact (effect_replace sig call pair.1 pair.2).cons (ih later) fresh

/-! ## What is disturbed -/

/-- A new tail reaches into the slot of a parameter, which the call left open. -/
def ReachesSlot (sig : Signature) (call : CallArguments) (replacements : Entries Value)
    (p : Parameter) : Prop :=
  ∃ slot, sig.positional[slot]? = some p ∧ call.positional.length ≤ slot ∧
    slot < call.positional.length + (sig.newTail replacements).length

/-- Replacements leave the keyword of a name as it is, unless they name it themselves. -/
def SparesKeyword (sig : Signature) (call : CallArguments) (replacements : Entries Value)
    (name : String) : Prop :=
  name ∈ replacements.keys ∨
    (call.keyword.insertAll (sig.newKeywords replacements)).get? name = call.keyword.get? name

/-- Replacements do not reach beyond the parameters that they name: a new tail reaches only into
    slots of such parameters, which no keyword names, and keywords that are written name a
    parameter only if its slot is open, and change only what is replaced anyway. -/
structure Confined (sig : Signature) (call : CallArguments) (replacements : Entries Value) :
    Prop where
  slots : ∀ p, sig.ReachesSlot call replacements p → p.name ∈ replacements.keys ∧
    (p.kind = .positionalOrKeyword → p.name ∉ call.keyword.keys ∧
      p.name ∉ Entries.keys (sig.newKeywords replacements))
  keywords : ∀ p ∈ sig.parameters, p.kind = .positionalOrKeyword ∨ p.kind = .keywordOnly →
    p.name ∈ Entries.keys (sig.newKeywords replacements) →
      ¬ sig.FillsSlot call p ∧ sig.SparesKeyword call replacements p.name

/-- Replacements are for what the call supplies: a new tail for a tail, surplus keywords for surplus
    keywords, and a keyword that names a parameter for one that the call has, which changes only if
    it is replaced anyway. -/
structure Placed (sig : Signature) (call : CallArguments) (replacements : Entries Value) :
    Prop where
  tail : sig.newTail replacements ≠ [] → sig.positionalCount < call.positional.length
  surplus : ∀ name ∈ Entries.keys (sig.newKeywords replacements), ¬ sig.NamesKeyword name →
    ∃ other ∈ call.keyword.keys, ¬ sig.NamesKeyword other
  keywords : ∀ p ∈ sig.parameters, p.kind = .positionalOrKeyword ∨ p.kind = .keywordOnly →
    p.name ∈ Entries.keys (sig.newKeywords replacements) →
      p.name ∈ call.keyword.keys ∧ sig.SparesKeyword call replacements p.name

/-- A slot is filled that was filled before or that a new tail reaches into. -/
theorem Effect.fillsSlot_iff (effect : sig.Effect call replacements next) :
    sig.FillsSlot next p ↔ sig.FillsSlot call p ∨ sig.ReachesSlot call replacements p := by
  have reached : ∀ slot, sig.positional[slot]? = some p →
      (slot < next.positional.length ↔
        slot < call.positional.length + (sig.newTail replacements).length) := by
    intro slot place
    have bound : slot < sig.positionalCount := (List.getElem?_eq_some_iff.mp place).1
    rcases effect.length with ⟨same, noTail⟩ | cut
    · simp [same, noTail]
    · omega
  constructor
  · intro filled
    rcases filled with ⟨slot, place, bound⟩
    rcases Nat.lt_or_ge slot call.positional.length with before | after
    · exact .inl ⟨slot, place, before⟩
    · exact .inr ⟨slot, place, after, (reached slot place).mp bound⟩
  · rintro (⟨slot, place, before⟩ | ⟨slot, place, -, bound⟩)
    · exact ⟨slot, place, (reached slot place).mpr (by omega)⟩
    · exact ⟨slot, place, (reached slot place).mpr bound⟩

/-- Without a new tail the positional arguments stay within the slots. -/
theorem Effect.length_le (effect : sig.Effect call replacements next)
    (noTail : sig.newTail replacements = [])
    (room : call.positional.length ≤ sig.positionalCount) :
    next.positional.length ≤ sig.positionalCount := by
  rcases effect.length with ⟨same, -⟩ | cut
  · omega
  · rw [noTail, List.length_nil] at cut
    omega

/-- Nothing that a call has an argument for loses it. -/
theorem Effect.has (effect : sig.Effect call replacements next) (has : sig.Has call p) :
    sig.Has next p := by
  rcases has with filled | ⟨kind, named⟩
  · exact .inl (effect.fillsSlot_iff.mpr (.inl filled))
  · exact .inr ⟨kind, (effect.names p.name).mpr (.inl named)⟩

/-- A rewritten call fits exactly if no keyword names a parameter whose slot is filled. -/
theorem Effect.fits_iff (effect : sig.Effect call replacements next) (fits : sig.Fits call) :
    sig.Fits next ↔ ∀ p ∈ sig.parameters, p.kind = .positionalOrKeyword ∨ p.kind = .keywordOnly →
      p.name ∈ next.keyword.keys → ¬ sig.FillsSlot next p := by
  constructor
  · intro fits' p member kind named
    have taken := isSurplus_eq_false_iff.mpr ⟨p, member, rfl, kind⟩
    exact (slotValue?_eq_none_iff member).mp (fits'.named p.name named taken)
  · intro clear
    refine ⟨?_, fun name named surplus => ?_, fun name named taken => ?_,
      fun p member required => ?_⟩
    · by_cases noTail : sig.newTail replacements = []
      · exact fits.room.imp_left (effect.length_le noTail)
      · obtain ⟨p, member, kind, -⟩ := exists_of_newTail noTail
        exact .inr ⟨p, member, kind⟩
    · rcases (effect.names name).mp named with before | new
      · exact fits.surplus name before surplus
      · obtain ⟨p, member, kind, -⟩ := exists_of_newKeywords new
        exact ⟨p, member, kind⟩
    · obtain ⟨p, member, rfl, kind⟩ := isSurplus_eq_false_iff.mp taken
      exact (slotValue?_eq_none_iff member).mpr (clear p member kind named)
    · have plain := isVariadic_of_isRequired required
      rw [isSome_supplied?_iff member plain]
      exact effect.has ((isSome_supplied?_iff member plain).mp (fits.required p member required))

/-- Confined replacements give a call that fits. -/
theorem Confined.fits (confined : sig.Confined call replacements)
    (effect : sig.Effect call replacements next) (fits : sig.Fits call) : sig.Fits next := by
  rw [effect.fits_iff fits]
  intro p member kind named filled
  rcases effect.fillsSlot_iff.mp filled with before | reaches
  · rcases (effect.names p.name).mp named with given | new
    · have taken := isSurplus_eq_false_iff.mpr ⟨p, member, rfl, kind⟩
      exact (slotValue?_eq_none_iff member).mp (fits.named p.name given taken) before
    · exact (confined.keywords p member kind new).1 before
  · have positional := filled.isPositional
    have kind : p.kind = .positionalOrKeyword := by
      rcases kind with kind | kind
      · exact kind
      · simp [kind, ParameterKind.isPositional] at positional
    obtain ⟨notGiven, notNew⟩ := (confined.slots p reaches).2 kind
    exact ((effect.names p.name).mp named).elim notGiven notNew

/-- Confined replacements leave parameters that they do not name as they are. -/
theorem Confined.supplied?_eq (confined : sig.Confined call replacements)
    (effect : sig.Effect call replacements next) (member : p ∈ sig.parameters)
    (unnamed : p.name ∉ replacements.keys) : sig.supplied? next p = sig.supplied? call p := by
  refine supplied?_congr member ?_ (fun taken => ?_) (fun kind => ?_) (fun kind => ?_)
  · cases before : sig.slotValue? call p.name with
    | some value => rw [effect.slots p.name unnamed (by simp [before]), before]
    | none =>
      rw [slotValue?_eq_none_iff member] at before ⊢
      rw [effect.fillsSlot_iff]
      exact not_or.mpr ⟨before, fun reaches => unnamed (confined.slots p reaches).1⟩
  · rw [effect.keywords p.name unnamed taken]
    obtain ⟨q, memberQ, same, kind⟩ := isSurplus_eq_false_iff.mp taken
    cases eq_of_name_eq memberQ member same
    by_cases new : p.name ∈ Entries.keys (sig.newKeywords replacements)
    · exact (confined.keywords p member kind new).2.resolve_left unnamed
    · exact OrderedMap.get?_insertAll_of_notMem new
  · refine (effect.tail fun q memberQ kindQ => ?_).2
    cases eq_of_varPositional memberQ member kindQ kind
    exact unnamed
  · refine effect.surplus fun q memberQ kindQ => ?_
    cases eq_of_varKeyword memberQ member kindQ kind
    exact unnamed

theorem supplied?_of_unfilled (member : p ∈ sig.parameters)
    (kind : p.kind = .positionalOrKeyword ∨ p.kind = .keywordOnly)
    (unfilled : ¬ sig.FillsSlot call p) : sig.supplied? call p = call.keyword.get? p.name := by
  have empty := (slotValue?_eq_none_iff member).mpr unfilled
  rcases kind with kind | kind <;> simp [supplied?, kind, empty]

/-- A slot that a new tail reaches into was open. -/
theorem ReachesSlot.unfilled (reaches : sig.ReachesSlot call replacements p) :
    ¬ sig.FillsSlot call p := by
  rintro ⟨slot, place, bound⟩
  obtain ⟨other, place', after, -⟩ := reaches
  have same := (position?_eq_some_iff.mpr ⟨p, place, rfl⟩).symm.trans
    (position?_eq_some_iff.mpr ⟨p, place', rfl⟩)
  cases same
  omega

/-- A parameter with a slot that a new tail reaches into has an argument in the rewritten call, and
    had none unless it was under its name. -/
theorem ReachesSlot.kind_of_has (reaches : sig.ReachesSlot call replacements p)
    (has : sig.Has call p) : p.kind = .positionalOrKeyword ∧ p.name ∈ call.keyword.keys := by
  obtain ⟨slot, place, -⟩ := id reaches
  have positional := (mem_positional_iff.mp (List.mem_of_getElem? place)).2
  obtain ⟨kind, named⟩ := has.resolve_left reaches.unfilled
  refine ⟨?_, named⟩
  cases h : p.kind <;> simp [h, ParameterKind.isPositional] at positional kind ⊢

/-- Replacements are confined if the call that they give fits and supplies the parameters that they
    do not name as before. -/
theorem confined_of_supplied?_eq (effect : sig.Effect call replacements next)
    (fits : sig.Fits call) (fits' : sig.Fits next)
    (same : ∀ p ∈ sig.parameters, p.name ∉ replacements.keys →
      sig.supplied? next p = sig.supplied? call p) : sig.Confined call replacements := by
  have clear := (effect.fits_iff fits).mp fits'
  refine ⟨fun p reaches => ?_, fun p member kind new => ?_⟩
  · have filled : sig.FillsSlot next p := effect.fillsSlot_iff.mpr (.inr reaches)
    have member : p ∈ sig.parameters := by
      obtain ⟨slot, place, -⟩ := reaches
      exact (mem_positional_iff.mp (List.mem_of_getElem? place)).1
    have unnamed (kind : p.kind = .positionalOrKeyword) : p.name ∉ next.keyword.keys :=
      fun named => clear p member (.inl kind) named filled
    refine ⟨?_, fun kind => not_or.mp fun named => unnamed kind ((effect.names p.name).mpr named)⟩
    by_contra kept
    have plain := ParameterKind.isVariadic_of_isPositional filled.isPositional
    have has : sig.Has call p := by
      rw [← isSome_supplied?_iff member plain, ← same p member kept,
        isSome_supplied?_iff member plain]
      exact .inl filled
    obtain ⟨kind, named⟩ := reaches.kind_of_has has
    exact unnamed kind ((effect.names p.name).mpr (.inl named))
  · have unfilled := clear p member kind ((effect.names p.name).mpr (.inr new))
    have unfilled' : ¬ sig.FillsSlot call p :=
      fun filled => unfilled (effect.fillsSlot_iff.mpr (.inl filled))
    refine ⟨unfilled', or_iff_not_imp_left.mpr fun kept => ?_⟩
    have taken := isSurplus_eq_false_iff.mpr ⟨p, member, rfl, kind⟩
    rw [← effect.keywords p.name kept taken, ← supplied?_of_unfilled member kind unfilled,
      same p member kept, supplied?_of_unfilled member kind unfilled']

/-- Replacements for what the call supplies reach into no open slot. -/
theorem Placed.not_reachesSlot (placed : sig.Placed call replacements) :
    ¬ sig.ReachesSlot call replacements p := by
  rintro ⟨slot, place, after, before⟩
  have bound : slot < sig.positionalCount := (List.getElem?_eq_some_iff.mp place).1
  have new : sig.newTail replacements ≠ [] := by
    intro noTail
    simp only [noTail, List.length_nil] at before
    omega
  have longer := placed.tail new
  omega

theorem Placed.confined (placed : sig.Placed call replacements) (fits : sig.Fits call) :
    sig.Confined call replacements := by
  refine ⟨fun p reaches => absurd reaches placed.not_reachesSlot, fun p member kind new => ?_⟩
  obtain ⟨given, kept⟩ := placed.keywords p member kind new
  have taken := isSurplus_eq_false_iff.mpr ⟨p, member, rfl, kind⟩
  exact ⟨(slotValue?_eq_none_iff member).mp (fits.named p.name given taken), kept⟩

/-- Replacements for what the call supplies leave open what it does not supply. -/
theorem Placed.isSome_supplied? (placed : sig.Placed call replacements)
    (effect : sig.Effect call replacements next) (member : p ∈ sig.parameters)
    (supplied : (sig.supplied? next p).isSome) : (sig.supplied? call p).isSome := by
  cases kind : p.kind with
  | positionalOnly | positionalOrKeyword | keywordOnly =>
    have plain : p.kind.isVariadic = false := by simp [kind, ParameterKind.isVariadic]
    rw [isSome_supplied?_iff member plain] at supplied ⊢
    rcases supplied with filled | ⟨byName, named⟩
    · exact .inl ((effect.fillsSlot_iff.mp filled).resolve_right placed.not_reachesSlot)
    · refine .inr ⟨byName, ?_⟩
      rcases (effect.names p.name).mp named with given | new
      · exact given
      · exact (placed.keywords p member (by simp [kind] at byName ⊢) new).1
  | varPositional =>
    rw [isSome_supplied?_varPositional_iff kind] at supplied ⊢
    by_cases noTail : sig.newTail replacements = []
    · by_contra short
      have room := effect.length_le noTail (Nat.le_of_not_lt short)
      omega
    · exact placed.tail noTail
  | varKeyword =>
    rw [isSome_supplied?_varKeyword_iff kind] at supplied ⊢
    obtain ⟨name, named, surplus⟩ := supplied
    rcases (effect.names name).mp named with given | new
    · exact ⟨name, given, surplus⟩
    · exact placed.surplus name new surplus

/-- Confined replacements are for what the call supplies if the call that they give supplies
    nothing else. -/
theorem placed_of_isSome_supplied? (effect : sig.Effect call replacements next)
    (confined : sig.Confined call replacements)
    (supplied : ∀ p ∈ sig.parameters, (sig.supplied? next p).isSome →
      (sig.supplied? call p).isSome) : sig.Placed call replacements := by
  have has : ∀ p ∈ sig.parameters, p.kind.isVariadic = false → sig.Has next p →
      sig.Has call p := by
    intro p member plain
    rw [← isSome_supplied?_iff member plain, ← isSome_supplied?_iff member plain]
    exact supplied p member
  refine ⟨fun new => ?_, fun name new surplus => ?_, fun p member kind new => ?_⟩
  · obtain ⟨p, member, kind, -⟩ := exists_of_newTail new
    have some : 0 < (sig.newTail replacements).length := List.length_pos_iff.mpr new
    rcases Nat.lt_trichotomy call.positional.length sig.positionalCount with
      shorter | equal | longer
    · -- The first argument of the tail would fill an open slot.
      have place := List.getElem?_eq_getElem shorter
      have reaches : sig.ReachesSlot call replacements _ := ⟨_, place, Nat.le_refl _, by omega⟩
      obtain ⟨member', positional⟩ := mem_positional_iff.mp (List.mem_of_getElem? place)
      have plain := ParameterKind.isVariadic_of_isPositional positional
      have before := has _ member' plain (.inl (effect.fillsSlot_iff.mpr (.inr reaches)))
      obtain ⟨kind', named⟩ := reaches.kind_of_has before
      exact absurd named ((confined.slots _ reaches).2 kind').1
    · have cut := effect.length.resolve_left fun left => new left.2
      have present := supplied p member ((isSome_supplied?_varPositional_iff kind).mpr (by omega))
      exact (isSome_supplied?_varPositional_iff kind).mp present
    · exact longer
  · obtain ⟨p, member, kind, -⟩ := exists_of_newKeywords new
    rw [← isSome_supplied?_varKeyword_iff kind]
    refine supplied p member ((isSome_supplied?_varKeyword_iff kind).mpr ⟨name, ?_, surplus⟩)
    exact (effect.names name).mpr (.inr new)
  · obtain ⟨unfilled, kept⟩ := confined.keywords p member kind new
    have plain : p.kind.isVariadic = false ∧ p.kind ≠ .positionalOnly := by
      rcases kind with kind | kind <;> simp [kind, ParameterKind.isVariadic]
    have before := has p member plain.1 (.inr ⟨plain.2, (effect.names p.name).mpr (.inr new)⟩)
    exact ⟨(before.resolve_left unfilled).2, kept⟩

/-- What a rewritten call binds, told by what it supplies. -/
theorem exists_bind_iff {bound : BoundArguments} (binds : sig.bind call = .ok bound)
    {kept : Parameter → Prop} :
    (∃ revised, sig.bind next = .ok revised ∧ ∀ p ∈ sig.parameters, kept p →
      revised.get? p.name = bound.get? p.name) ↔
    sig.Fits next ∧ ∀ p ∈ sig.parameters, kept p → sig.supplied? next p = sig.supplied? call p := by
  constructor
  · intro all
    rcases all with ⟨revised, binds', same⟩
    refine ⟨(bind_eq_ok_iff.mp binds').1, fun p member keeps => ?_⟩
    rw [← get?_bound binds' member, ← get?_bound binds member, same p member keeps]
  · intro all
    rcases all with ⟨fits, same⟩
    have binds' : sig.bind next = .ok ⟨sig.arguments next, nodup_keys_arguments⟩ :=
      bind_eq_ok_iff.mpr ⟨fits, rfl⟩
    refine ⟨_, binds', fun p member keeps => ?_⟩
    rw [get?_bound binds' member, get?_bound binds member, same p member keeps]

/-- Placed replacements disturb nothing: the call still binds, and whatever they do not name or the
    call left out stays as it was. -/
theorem Placed.exists_bind {bound : BoundArguments} {replacements : Replacements}
    (placed : sig.Placed call replacements.entries) (binds : sig.bind call = .ok bound) :
    ∃ revised, sig.bind (call.replaceAll sig replacements.entries).1 = .ok revised ∧
      ∀ p ∈ sig.parameters, p.name ∉ replacements.keys ∨ bound.get? p.name = none →
        revised.get? p.name = bound.get? p.name := by
  have fits := (bind_eq_ok_iff.mp binds).1
  have effect := @effect_replaceAll sig call replacements.entries replacements.nodup
  have confined := placed.confined fits
  rw [exists_bind_iff binds]
  refine ⟨confined.fits effect fits, fun p member kept => ?_⟩
  rcases kept with unnamed | absent
  · exact confined.supplied?_eq effect member unnamed
  · rw [get?_bound binds member] at absent
    have stays := mt (placed.isSome_supplied? effect member)
    simp only [Option.not_isSome_iff_eq_none] at stays
    rw [stays absent, absent]

/-- Replacements of any names with any values give a call that binds and leave every parameter
    that they do not name as it is, exactly if they are confined; and they leave also what was not
    supplied without an argument exactly if they are for what the call supplies. -/
theorem bind_replaceAll_iff {bound : BoundArguments} (binds : sig.bind call = .ok bound)
    (replacements : Replacements) :
    ((∃ revised, sig.bind (call.replaceAll sig replacements.entries).1 = .ok revised ∧
        ∀ p ∈ sig.parameters, p.name ∉ replacements.keys →
          revised.get? p.name = bound.get? p.name) ↔
      sig.Confined call replacements.entries) ∧
    ((∃ revised, sig.bind (call.replaceAll sig replacements.entries).1 = .ok revised ∧
        ∀ p ∈ sig.parameters, p.name ∉ replacements.keys ∨ bound.get? p.name = none →
          revised.get? p.name = bound.get? p.name) ↔
      sig.Placed call replacements.entries) := by
  have fits := (bind_eq_ok_iff.mp binds).1
  have effect := @effect_replaceAll sig call replacements.entries replacements.nodup
  constructor
  · rw [exists_bind_iff binds]
    constructor
    · intro undisturbed
      exact confined_of_supplied?_eq effect fits undisturbed.1 undisturbed.2
    · intro confined
      exact ⟨confined.fits effect fits, fun p member => confined.supplied?_eq effect member⟩
  · constructor
    · intro undisturbed
      obtain ⟨fits', same⟩ := (exists_bind_iff binds).mp undisturbed
      have confined := confined_of_supplied?_eq effect fits fits' fun p member unnamed =>
        same p member (.inl unnamed)
      refine placed_of_isSome_supplied? effect confined fun p member => ?_
      contrapose
      intro absent
      rw [Option.not_isSome_iff_eq_none] at absent ⊢
      rw [same p member (.inr ((get?_bound binds member).trans absent)), absent]
    · intro placed
      exact placed.exists_bind binds

/-- A longer tail, surplus keywords that are there, a keyword with the value it has and a name of no
    parameter disturb nothing. -/
theorem bind_replaceAll_iff_mixed :
    let call : CallArguments := ⟨[.int 1, .int 2, .int 3], .ofList [("k", .int 6), ("x", .int 7)]⟩
    let bound : BoundArguments := .ofList [("a", .int 1), ("b", .int 2), ("rest", .list [.int 3]),
      ("k", .int 6), ("options", .map [("x", .int 7)])]
    let replacements : Replacements := .ofList [("options", .map [("x", .int 70), ("k", .int 6)]),
      ("rest", .list [.int 30, .int 40]), ("nobody", .int 0)]
    mixed.bind call = .ok bound ∧ mixed.Placed call replacements.entries ∧
      ∃ revised, mixed.bind (call.replaceAll mixed replacements.entries).1 = .ok revised ∧
        ∀ p ∈ mixed.parameters, p.name ∉ replacements.keys ∨ bound.get? p.name = none →
          revised.get? p.name = bound.get? p.name := by
  intro call bound replacements
  have binds : mixed.bind call = .ok bound := rfl
  have placed : mixed.Placed call replacements.entries := by
    refine ⟨fun _ => by decide, fun name new surplus => ?_, fun p member kind new => ?_⟩
    · exact ⟨"x", by decide, by decide⟩
    · have only : ∀ p ∈ mixed.parameters,
          p.name ∈ Entries.keys (mixed.newKeywords replacements.entries) → p.name = "k" := by decide
      rw [only p member new]
      exact ⟨by decide, .inr rfl⟩
  exact ⟨binds, placed, (bind_replaceAll_iff binds replacements).2.mpr placed⟩

/-- A call no longer binds with a surplus keyword that names a parameter whose slot is filled. -/
example : mixed.bind ((⟨[.int 1, .int 2], .ofList [("k", .int 6)]⟩ : CallArguments).replaceAll
    mixed [("options", .map [("b", .int 5)])]).1 = .error (.multipleValues "b") := by rfl

theorem placed_of_not_variadic (plain : ∀ p ∈ sig.parameters, p.name ∈ replacements.keys →
    p.kind.isVariadic = false) : sig.Placed call replacements := by
  have noTail : sig.newTail replacements = [] := by
    by_contra new
    obtain ⟨p, member, kind, named⟩ := exists_of_newTail new
    simpa [kind, ParameterKind.isVariadic] using plain p member named
  have noKeywords : ∀ name, name ∉ Entries.keys (sig.newKeywords replacements) := by
    intro name new
    obtain ⟨p, member, kind, named⟩ := exists_of_newKeywords new
    simpa [kind, ParameterKind.isVariadic] using plain p member named
  exact ⟨fun new => absurd noTail new, fun name new => absurd new (noKeywords name),
    fun p _ _ new => absurd new (noKeywords p.name)⟩

/-- Replacements that name no variadic parameter disturb nothing, in whatever way the call supplies
    the parameters that they name. -/
theorem exists_bind_of_not_variadic {bound : BoundArguments} {replacements : Replacements}
    (binds : sig.bind call = .ok bound)
    (plain : ∀ p ∈ sig.parameters, p.name ∈ replacements.keys → p.kind.isVariadic = false) :
    ∃ revised, sig.bind (call.replaceAll sig replacements.entries).1 = .ok revised ∧
      ∀ p ∈ sig.parameters, p.name ∉ replacements.keys ∨ bound.get? p.name = none →
        revised.get? p.name = bound.get? p.name :=
  (placed_of_not_variadic plain).exists_bind binds

/-- A function whose second argument may be left out, before the variadic parameter. -/
def padded : Signature where
  parameters := [⟨"a", .positionalOrKeyword, none, none⟩,
    ⟨"b", .positionalOrKeyword, none, some (.int 0)⟩, ⟨"rest", .varPositional, none, none⟩]
  returns := none
  orderly := by decide

/-- A tail for a call that leaves its second argument out becomes that argument, which nothing
    named. -/
theorem not_bind_replaceAll_undisturbed : ¬ ∀ (sig : Signature) (call : CallArguments)
    (bound : BoundArguments) (replacements : Replacements), sig.bind call = .ok bound →
      ∃ revised, sig.bind (call.replaceAll sig replacements.entries).1 = .ok revised ∧
        ∀ p ∈ sig.parameters, p.name ∉ replacements.keys →
          revised.get? p.name = bound.get? p.name := by
  intro undisturbed
  have binds : padded.bind ⟨[.int 1], .empty⟩ = .ok (.ofList [("a", .int 1)]) := rfl
  have changed : padded.bind ((⟨[.int 1], .empty⟩ : CallArguments).replaceAll padded
      [("rest", .list [.int 7])]).1 = .ok (.ofList [("a", .int 1), ("b", .int 7)]) := rfl
  obtain ⟨revised, binds', same⟩ :=
    undisturbed padded _ _ (.ofList [("rest", .list [.int 7])]) binds
  cases changed.symm.trans binds'
  have second : ⟨"b", .positionalOrKeyword, none, some (.int 0)⟩ ∈ padded.parameters := by
    simp [padded]
  cases same _ second (by decide)

end Signature

end CallGuard
