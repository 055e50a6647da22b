import CallGuard.OrderedMap
import Mathlib.Data.List.Forall2
import Mathlib.Data.List.Nodup

/-!
# Reading and writing entries

What is read after entries are appended, filtered, written to or merged.  Where the names are
distinct, entries are determined by their names and by what is read at each of them.
-/

namespace CallGuard

namespace Entries

variable {α β γ : Type}

@[simp] theorem get?_nil (name : String) : get? ([] : Entries α) name = none := rfl

theorem get?_cons (k : String) (v : α) (rest : Entries α) (name : String) :
    get? ((k, v) :: rest) name = if k = name then some v else get? rest name := by
  by_cases h : k = name
  · simp [get?, h]
  · have hne : (name == k) = false := by simpa using Ne.symm h
    simp [get?, List.lookup_cons, hne, h]

theorem get?_cons_self (k : String) (v : α) (rest : Entries α) :
    get? ((k, v) :: rest) k = some v := by simp [get?_cons]

theorem get?_cons_of_ne {k name : String} (v : α) (rest : Entries α) (h : k ≠ name) :
    get? ((k, v) :: rest) name = get? rest name := by simp [get?_cons, h]

@[simp] theorem keys_nil : keys ([] : Entries α) = [] := rfl

@[simp] theorem keys_cons (pair : String × α) (rest : Entries α) :
    keys (pair :: rest) = pair.1 :: keys rest := rfl

@[simp] theorem keys_append (es fs : Entries α) : keys (es ++ fs) = keys es ++ keys fs := by
  simp [keys]

theorem length_eq_of_keys_eq {es : Entries α} {fs : Entries β} (names : keys es = keys fs) :
    es.length = fs.length := by simpa [keys] using congrArg List.length names

theorem mem_keys_of_mem {es : Entries α} {name : String} {v : α} (h : (name, v) ∈ es) :
    name ∈ keys es := List.mem_map_of_mem h

/-- Nothing is read at a name exactly if the name does not occur. -/
theorem get?_eq_none_iff {es : Entries α} {name : String} :
    get? es name = none ↔ name ∉ keys es := by
  induction es with
  | nil => simp
  | cons pair rest ih =>
    obtain ⟨k, v⟩ := pair
    by_cases h : k = name
    · simp [get?_cons, h]
    · simp [get?_cons, h, ih, Ne.symm h]

theorem isSome_get?_iff {es : Entries α} {name : String} :
    (get? es name).isSome ↔ name ∈ keys es := by
  rw [Option.isSome_iff_ne_none, ne_eq, get?_eq_none_iff, not_not]

theorem contains_iff {es : Entries α} {name : String} :
    contains es name = true ↔ name ∈ keys es := isSome_get?_iff

theorem contains_eq_false_iff {es : Entries α} {name : String} :
    contains es name = false ↔ name ∉ keys es := by
  rw [← contains_iff, Bool.not_eq_true]

theorem mem_of_get? {es : Entries α} {name : String} {v : α} (h : get? es name = some v) :
    (name, v) ∈ es := by
  induction es with
  | nil => simp at h
  | cons pair rest ih =>
    obtain ⟨k, w⟩ := pair
    by_cases hk : k = name
    · subst hk
      rw [get?_cons_self] at h
      cases h
      exact List.mem_cons_self
    · rw [get?_cons_of_ne _ _ hk] at h
      exact List.mem_cons_of_mem _ (ih h)

/-- With distinct names every entry is what is read at its name. -/
theorem get?_of_mem {es : Entries α} (distinct : (keys es).Nodup) {name : String} {v : α}
    (h : (name, v) ∈ es) : get? es name = some v := by
  induction es with
  | nil => simp at h
  | cons pair rest ih =>
    obtain ⟨k, w⟩ := pair
    have parts := List.nodup_cons.mp distinct
    rcases List.mem_cons.mp h with equal | member
    · cases equal
      exact get?_cons_self _ _ _
    · have different : k ≠ name := by
        intro equal
        subst equal
        exact parts.1 (mem_keys_of_mem member)
      rw [get?_cons_of_ne _ _ different]
      exact ih parts.2 member

theorem get?_append (es fs : Entries α) (name : String) :
    get? (es ++ fs) name = (get? es name).or (get? fs name) := by
  induction es with
  | nil => simp
  | cons pair rest ih =>
    obtain ⟨k, v⟩ := pair
    by_cases h : k = name
    · simp [get?_cons, h]
    · simpa [get?_cons, h] using ih

/-- Filtering by names hides the names that the filter refuses. -/
theorem get?_filter (p : String → Bool) (es : Entries α) (name : String) :
    get? (es.filter fun entry => p entry.1) name = if p name then get? es name else none := by
  induction es with
  | nil => simp
  | cons pair rest ih =>
    obtain ⟨k, v⟩ := pair
    by_cases hk : k = name
    · subst hk
      cases hp : p k <;> simp_all [get?_cons]
    · cases hp : p k <;> simp_all [get?_cons]

theorem keys_filter (p : String → Bool) (es : Entries α) :
    keys (es.filter fun entry => p entry.1) = (keys es).filter p := by
  simp [keys, List.filter_map, Function.comp_def]

/-- Entries with the same names in the same order, all distinct, that read alike are equal. -/
theorem ext_of_get? {es fs : Entries α} (distinct : (keys es).Nodup) (names : keys es = keys fs)
    (reads : ∀ name ∈ keys es, get? es name = get? fs name) : es = fs := by
  induction es generalizing fs with
  | nil =>
    cases fs with
    | nil => rfl
    | cons pair rest => simp at names
  | cons pair rest ih =>
    cases fs with
    | nil => simp at names
    | cons other others =>
      obtain ⟨k, v⟩ := pair
      obtain ⟨k', v'⟩ := other
      simp only [keys_cons, List.cons.injEq] at names
      obtain ⟨rfl, tails⟩ := names
      have parts := List.nodup_cons.mp distinct
      have head := reads k (by simp)
      rw [get?_cons_self, get?_cons_self] at head
      cases head
      congr 1
      apply ih parts.2 tails
      intro name member
      have different : k ≠ name := by
        intro equal
        subst equal
        exact parts.1 member
      have tail := reads name (by simp [member])
      rwa [get?_cons_of_ne _ _ different, get?_cons_of_ne _ _ different] at tail

/-- Permuting entries with distinct names changes no reading. -/
theorem get?_perm {es fs : Entries α} (perm : es.Perm fs) (distinct : (keys es).Nodup)
    (name : String) : get? es name = get? fs name := by
  have distinct' : (keys fs).Nodup := (perm.map Prod.fst).nodup_iff.mp distinct
  cases h : get? es name with
  | some v => exact (get?_of_mem distinct' (perm.mem_iff.mp (mem_of_get? h))).symm
  | none =>
    rw [get?_eq_none_iff] at h
    refine (get?_eq_none_iff.mpr fun member => h ?_).symm
    exact (perm.map Prod.fst).mem_iff.mpr member

/-! ## Writing -/

theorem get?_put (es : Entries α) (name other : String) (v : α) :
    get? (es.put name v) other = if other = name then some v else get? es other := by
  by_cases h : other = name
  · simp [h, get?_put_self]
  · simp [h, get?_put_of_ne es v h]

theorem keys_put_of_mem {es : Entries α} {name : String} (member : name ∈ keys es) (v : α) :
    keys (es.put name v) = keys es := by simp [keys_put, member]

/-- A new name is written at the end. -/
theorem put_of_notMem {es : Entries α} {name : String} (fresh : name ∉ keys es) (v : α) :
    es.put name v = es ++ [(name, v)] := by
  induction es with
  | nil => rfl
  | cons pair rest ih =>
    obtain ⟨k, w⟩ := pair
    simp only [keys_cons, List.mem_cons, not_or] at fresh
    simp [put, Ne.symm fresh.1, ih fresh.2]

@[simp] theorem putAll_nil (es : Entries α) : es.putAll [] = es := rfl

@[simp] theorem putAll_cons (es : Entries α) (pair : String × α) (updates : Entries α) :
    es.putAll (pair :: updates) = (es.put pair.1 pair.2).putAll updates := rfl

/-- After several writes the last one at a name counts. -/
theorem get?_putAll (es updates : Entries α) (name : String) :
    get? (es.putAll updates) name = (get? updates.reverse name).or (get? es name) := by
  induction updates generalizing es with
  | nil => simp
  | cons pair rest ih =>
    obtain ⟨k, v⟩ := pair
    rw [putAll_cons, ih, get?_put, List.reverse_cons, get?_append, get?_cons, get?_nil]
    by_cases h : k = name
    · simp [h]
    · simp [h, Ne.symm h]

theorem mem_keys_putAll_iff {es updates : Entries α} {name : String} :
    name ∈ keys (es.putAll updates) ↔ name ∈ keys es ∨ name ∈ keys updates := by
  have reversed : (get? updates.reverse name).isSome ↔ name ∈ keys updates := by
    rw [isSome_get?_iff]
    simp [keys]
  rw [← isSome_get?_iff, get?_putAll, Option.isSome_or, Bool.or_eq_true, reversed,
    isSome_get?_iff, or_comm]

theorem putAll_append (es updates others : Entries α) :
    es.putAll (updates ++ others) = (es.putAll updates).putAll others := List.foldl_append

theorem get?_reverse {es : Entries α} (distinct : (keys es).Nodup) (name : String) :
    get? es.reverse name = get? es name :=
  (get?_perm (List.reverse_perm es).symm distinct name).symm

/-- Writes to names that are all present keep the names as they are. -/
theorem keys_putAll_of_subset {es updates : Entries α} (subset : ∀ name ∈ keys updates,
    name ∈ keys es) : keys (es.putAll updates) = keys es := by
  induction updates generalizing es with
  | nil => rfl
  | cons pair rest ih =>
    simp only [keys_cons, List.mem_cons, forall_eq_or_imp] at subset
    have names := keys_put_of_mem subset.1 pair.2
    rw [putAll_cons, ih (by rw [names]; exact subset.2), names]

/-- Writes to distinct new names append. -/
theorem putAll_eq_append {es updates : Entries α} (distinct : (keys (es ++ updates)).Nodup) :
    es.putAll updates = es ++ updates := by
  induction updates generalizing es with
  | nil => simp
  | cons pair rest ih =>
    have fresh : pair.1 ∉ keys es := by
      rw [keys_append, List.nodup_append] at distinct
      intro member
      exact distinct.2.2 _ member _ (by simp) rfl
    rw [putAll_cons, put_of_notMem fresh, ih (by simpa using distinct)]
    simp

theorem put_map (f : α → β) (es : Entries α) (name : String) (v : α) :
    put (es.map fun pair => (pair.1, f pair.2)) name (f v) =
      (put es name v).map fun pair => (pair.1, f pair.2) := by
  induction es with
  | nil => rfl
  | cons pair rest ih =>
    by_cases h : pair.1 = name
    · simp [put, h]
    · simpa [put, h] using ih

/-- Merging before or after the values change comes to the same. -/
theorem merged_map (f : α → β) (pairs : Entries α) :
    merged (pairs.map fun pair => (pair.1, f pair.2)) =
      (merged pairs).map fun pair => (pair.1, f pair.2) := by
  have run : ∀ es : Entries α,
      putAll (es.map fun pair => (pair.1, f pair.2)) (pairs.map fun pair => (pair.1, f pair.2)) =
        (putAll es pairs).map fun pair => (pair.1, f pair.2) := by
    induction pairs with
    | nil => exact fun _ => rfl
    | cons pair rest ih =>
      intro es
      rw [List.map_cons, putAll_cons, put_map, ih, putAll_cons]
  exact run []

/-- Pairs with distinct names are merged already. -/
theorem merged_of_nodup {pairs : Entries α} (distinct : (keys pairs).Nodup) :
    merged pairs = pairs := by
  rw [merged, putAll_eq_append (by simpa using distinct), List.nil_append]

/-- Merging keeps every name, and at each name the value of one of its pairs. -/
theorem mem_of_get?_merged {pairs : Entries α} {name : String} {v : α}
    (found : get? (merged pairs) name = some v) : (name, v) ∈ pairs := by
  rw [merged, get?_putAll, get?_nil, Option.or_none] at found
  exact List.mem_reverse.mp (mem_of_get? found)

theorem mem_keys_merged_iff {pairs : Entries α} {name : String} :
    name ∈ keys (merged pairs) ↔ name ∈ keys pairs := by simp [merged, mem_keys_putAll_iff]

/-- Writing over all names in their order replaces every value. -/
theorem putAll_of_keys_eq {es updates : Entries α} (distinct : (keys es).Nodup)
    (names : keys updates = keys es) : es.putAll updates = updates := by
  have same : keys (es.putAll updates) = keys es := keys_putAll_of_subset (by simp [names])
  refine ext_of_get? (by rwa [same]) (same.trans names.symm) ?_
  intro name member
  rw [get?_putAll, get?_reverse (names ▸ distinct)]
  rw [same, ← names, ← isSome_get?_iff, Option.isSome_iff_exists] at member
  obtain ⟨v, found⟩ := member
  simp [found]

/-! ## Lists side by side -/

theorem exists_forall₂ {r : α → β → Prop} {xs : List α} (each : ∀ x ∈ xs, ∃ y, r x y) :
    ∃ ys, List.Forall₂ r xs ys := by
  induction xs with
  | nil => exact ⟨[], .nil⟩
  | cons x rest ih =>
    have ⟨⟨y, head⟩, later⟩ := List.forall_mem_cons.mp each
    obtain ⟨ys, tail⟩ := ih later
    exact ⟨y :: ys, .cons head tail⟩

theorem exists_mem_of_forall₂ {r : α → β → Prop} {xs : List α} {ys : List β}
    (related : List.Forall₂ r xs ys) {x : α} (member : x ∈ xs) : ∃ y ∈ ys, r x y := by
  induction related with
  | nil => simp at member
  | cons head _ ih =>
    rcases List.mem_cons.mp member with rfl | later
    · exact ⟨_, List.mem_cons_self, head⟩
    · obtain ⟨y, inside, agree⟩ := ih later
      exact ⟨y, List.mem_cons_of_mem _ inside, agree⟩

theorem exists_getElem?_of_forall₂ {r : α → β → Prop} {xs : List α} {ys : List β}
    (related : List.Forall₂ r xs ys) {i : Nat} {x : α} (found : xs[i]? = some x) :
    ∃ y, ys[i]? = some y ∧ r x y := by
  induction related generalizing i with
  | nil => simp at found
  | cons head _ ih =>
    cases i with
    | zero =>
      cases found
      exact ⟨_, rfl, head⟩
    | succ i => exact ih found

theorem forall_mem_iff_of_forall₂ {r : α → β → Prop} {p : α → Prop} {q : β → Prop} {xs : List α}
    {ys : List β} (related : List.Forall₂ r xs ys)
    (agree : ∀ x ∈ xs, ∀ y, r x y → (p x ↔ q y)) : (∀ x ∈ xs, p x) ↔ ∀ y ∈ ys, q y := by
  induction related with
  | nil => simp
  | cons head _ ih =>
    have here := agree _ List.mem_cons_self _ head
    have later := ih fun x inside => agree x (List.mem_cons_of_mem _ inside)
    simp only [List.forall_mem_cons, here, later]

theorem eq_of_forall₂ {r : α → α → Prop} {xs ys : List α} (related : List.Forall₂ r xs ys)
    (each : ∀ x ∈ xs, ∀ y, r x y → x = y) : xs = ys := by
  have both := (List.forall₂_and_left _ _).mpr ⟨each, related⟩
  have equal : List.Forall₂ Eq xs ys := List.Forall₂.imp (fun _ _ h => h.1 _ h.2) both
  rwa [List.forall₂_eq_eq_eq] at equal

/-- A fourth list beside two that are related to a first one. -/
theorem exists_forall₂_square {δ : Type} {r : α → β → Prop} {s : α → γ → Prop}
    {r' : γ → δ → Prop} {s' : β → δ → Prop} {xs : List α} {ys : List β} {zs : List γ}
    (related : List.Forall₂ r xs ys) (found : List.Forall₂ s xs zs)
    (step : ∀ x ∈ xs, ∀ y z, r x y → s x z → ∃ u, s' y u ∧ r' z u) :
    ∃ us, List.Forall₂ s' ys us ∧ List.Forall₂ r' zs us := by
  induction related generalizing zs with
  | nil =>
    cases found
    exact ⟨[], .nil, .nil⟩
  | cons head _ ih =>
    cases found with
    | cons here later =>
      have ⟨first, rest⟩ := List.forall_mem_cons.mp step
      obtain ⟨u, made, agree⟩ := first _ _ head here
      obtain ⟨us, others, agrees⟩ := ih later rest
      exact ⟨u :: us, .cons made others, .cons agree agrees⟩

/-- A third list of what each step yields, which agrees with the second list exactly if no step
    goes astray. -/
theorem exists_forall₂_step {r : α → β → Prop} {s : β → γ → Prop} {t : α → γ → Prop}
    {q : γ → β → Prop} (astray : α → Prop) {xs : List α} {ys : List β}
    (related : List.Forall₂ r xs ys) (step : ∀ x ∈ xs, ∀ y ∈ ys, r x y →
      ∃ z, s y z ∧ t x z ∧ (q z y ↔ ¬ astray x)) :
    ∃ zs, List.Forall₂ s ys zs ∧ List.Forall₂ t xs zs ∧
      (List.Forall₂ q zs ys ↔ ∀ x ∈ xs, ¬ astray x) := by
  induction related with
  | nil => exact ⟨[], .nil, .nil, by simp⟩
  | @cons x y _ _ head _ ih =>
    obtain ⟨z, first, first', agree⟩ := step x List.mem_cons_self y List.mem_cons_self head
    obtain ⟨zs, rest, rest', agrees⟩ := ih fun x inside y inside' =>
      step x (List.mem_cons_of_mem _ inside) y (List.mem_cons_of_mem _ inside')
    refine ⟨z :: zs, .cons first rest, .cons first' rest', ?_⟩
    simp [agree, agrees]

/-! ## Entries side by side -/

/-- Entries with the same names whose values are related, position by position. -/
def Aligned (r : α → β → Prop) (es : Entries α) (fs : Entries β) : Prop :=
  List.Forall₂ (fun e f => e.1 = f.1 ∧ r e.2 f.2) es fs

theorem Aligned.keys_eq {r : α → β → Prop} {es : Entries α} {fs : Entries β}
    (aligned : Aligned r es fs) : keys es = keys fs := by
  induction aligned with
  | nil => rfl
  | cons head _ ih => simp [head.1, ih]

theorem Aligned.imp {r s : α → β → Prop} {es : Entries α} {fs : Entries β}
    (aligned : Aligned r es fs) (h : ∀ v w, r v w → s v w) : Aligned s es fs :=
  List.Forall₂.imp (fun _ _ both => ⟨both.1, h _ _ both.2⟩) aligned

theorem Aligned.swap {r : α → β → Prop} {es : Entries α} {fs : Entries β}
    (aligned : Aligned r es fs) : Aligned (fun w v => r v w) fs es :=
  List.Forall₂.flip (List.Forall₂.imp (fun _ _ both => ⟨both.1.symm, both.2⟩) aligned)

/-- What aligned entries read at a name is related. -/
theorem Aligned.get? {r : α → β → Prop} {es : Entries α} {fs : Entries β}
    (aligned : Aligned r es fs) {name : String} {v : α} (found : Entries.get? es name = some v) :
    ∃ w, Entries.get? fs name = some w ∧ r v w := by
  induction aligned with
  | nil => simp at found
  | @cons e f _ _ head _ ih =>
    obtain ⟨k, v'⟩ := e
    obtain ⟨k', w'⟩ := f
    obtain ⟨rfl, related⟩ := head
    by_cases h : k = name
    · subst h
      rw [get?_cons_self] at found ⊢
      cases found
      exact ⟨w', rfl, related⟩
    · rw [get?_cons_of_ne _ _ h] at found ⊢
      exact ih found

theorem Aligned.exists_step {r : α → β → Prop} {s : β → γ → Prop} {q : γ → β → Prop}
    (astray : α → Prop) {es : Entries α} {fs : Entries β} (aligned : Aligned r es fs)
    (step : ∀ entry ∈ es, ∀ w, r entry.2 w → ∃ z, s w z ∧ (q z w ↔ ¬ astray entry.2)) :
    ∃ gs, Aligned s fs gs ∧ (Aligned q gs fs ↔ ∀ entry ∈ es, ¬ astray entry.2) := by
  obtain ⟨gs, related, -, agrees⟩ := exists_forall₂_step
    (s := fun (f : String × β) (g : String × γ) => f.1 = g.1 ∧ s f.2 g.2) (t := fun _ _ => True)
    (q := fun g f => g.1 = f.1 ∧ q g.2 f.2) (fun entry => astray entry.2) aligned
    fun entry member f _ both => by
      obtain ⟨z, found, agree⟩ := step entry member f.2 both.2
      exact ⟨(f.1, z), ⟨rfl, found⟩, trivial, by simp [agree]⟩
  exact ⟨gs, related, agrees⟩

/-- Entries with the same distinct names in the same order are aligned exactly if each is
    related to what the others read at its name. -/
theorem aligned_iff {r : α → β → Prop} {es : Entries α} {fs : Entries β}
    (distinct : (keys es).Nodup) (names : keys es = keys fs) : Aligned r es fs ↔
      ∀ entry ∈ es, ∃ w, Entries.get? fs entry.1 = some w ∧ r entry.2 w := by
  constructor
  · intro aligned entry member
    exact aligned.get? (get?_of_mem distinct member)
  · intro each
    induction es generalizing fs with
    | nil =>
      cases fs with
      | nil => exact .nil
      | cons pair rest => simp at names
    | cons pair rest ih =>
      cases fs with
      | nil => simp at names
      | cons other others =>
        obtain ⟨k, v⟩ := pair
        obtain ⟨k', w⟩ := other
        simp only [keys_cons, List.cons.injEq] at names
        obtain ⟨rfl, tails⟩ := names
        have parts := List.nodup_cons.mp distinct
        have ⟨⟨w', here, head⟩, later⟩ := List.forall_mem_cons.mp each
        rw [get?_cons_self] at here
        cases here
        refine .cons ⟨rfl, head⟩ (ih parts.2 tails fun entry member => ?_)
        obtain ⟨w', found, agree⟩ := later entry member
        have different : k ≠ entry.1 := by
          intro equal
          subst equal
          exact parts.1 (mem_keys_of_mem member)
        exact ⟨w', by rwa [get?_cons_of_ne _ _ different] at found, agree⟩

/-- Alignment of entries that are followed by the same entries, aligned with themselves. -/
theorem aligned_append_iff {r : α → α → Prop} {es fs others : Entries α}
    (lengths : es.length = fs.length) (same : Aligned r others others) :
    Aligned r (es ++ others) (fs ++ others) ↔ Aligned r es fs := by
  constructor
  · intro aligned
    have front := List.forall₂_take es.length aligned
    rwa [List.take_left, lengths, List.take_left] at front
  · intro aligned
    exact List.rel_append aligned same

end Entries

namespace OrderedMap

variable {α β : Type}

@[simp] theorem get?_empty (name : String) : (empty : OrderedMap α).get? name = none := rfl

theorem get?_eq_none_iff {m : OrderedMap α} {name : String} :
    m.get? name = none ↔ name ∉ m.keys := Entries.get?_eq_none_iff

theorem isSome_get?_iff {m : OrderedMap α} {name : String} :
    (m.get? name).isSome ↔ name ∈ m.keys := Entries.isSome_get?_iff

theorem contains_iff {m : OrderedMap α} {name : String} :
    m.contains name = true ↔ name ∈ m.keys := Entries.contains_iff

theorem get?_of_mem {m : OrderedMap α} {name : String} {v : α} (h : (name, v) ∈ m.entries) :
    m.get? name = some v := Entries.get?_of_mem m.nodup h

/-- Maps with the same names in the same order that read alike are equal. -/
theorem ext_of_get? {m n : OrderedMap α} (names : m.keys = n.keys)
    (reads : ∀ name ∈ m.keys, m.get? name = n.get? name) : m = n :=
  OrderedMap.ext (Entries.ext_of_get? m.nodup names reads)

/-- Pairs with distinct names are the entries of their map. -/
theorem entries_ofList {pairs : Entries α} (distinct : (Entries.keys pairs).Nodup) :
    (ofList pairs).entries = pairs := Entries.merged_of_nodup distinct

theorem get?_ofList_eq_some_iff {pairs : Entries α} (distinct : (Entries.keys pairs).Nodup)
    {name : String} {v : α} : (ofList pairs).get? name = some v ↔ (name, v) ∈ pairs := by
  rw [get?, entries_ofList distinct]
  exact ⟨Entries.mem_of_get?, Entries.get?_of_mem distinct⟩

theorem eq_of_get?_ofList_singleton {name name' : String} {v w : α}
    (h : (ofList [(name, v)]).get? name' = some w) : v = w := by
  have member := Entries.mem_of_get? h
  rw [entries_ofList (by simp), List.mem_singleton] at member
  exact (Prod.mk.inj member).2.symm

/-- What is read from the kept entries. -/
theorem get?_filterMap (f : String → α → Option β) (m : OrderedMap α) (name : String) :
    (m.filterMap f).get? name = (m.get? name).bind (f name) := by
  obtain ⟨entries, distinct⟩ := m
  simp only [filterMap, get?]
  induction entries with
  | nil => simp
  | cons pair rest ih =>
    obtain ⟨k, v⟩ := pair
    have parts := List.nodup_cons.mp distinct
    have ih := ih parts.2
    by_cases hk : k = name
    · subst hk
      have absent : Entries.get? rest k = none := Entries.get?_eq_none_iff.mpr parts.1
      rw [absent] at ih
      cases hf : f k v with
      | none => simpa [List.filterMap_cons, hf, Entries.get?_cons] using ih
      | some w => simp [hf, Entries.get?_cons]
    · cases hf : f k v with
      | none => simpa [List.filterMap_cons, hf, Entries.get?_cons, hk] using ih
      | some w => simpa [List.filterMap_cons, hf, Entries.get?_cons, hk] using ih

/-- After writing over a map what was written counts, and elsewhere what was there. -/
theorem get?_insertAll (m updates : OrderedMap α) (name : String) :
    (m.insertAll updates.entries).get? name = (updates.get? name).or (m.get? name) := by
  simp only [insertAll, get?, Entries.get?_putAll, Entries.get?_reverse updates.nodup]

theorem get?_insertAll_of_notMem {m : OrderedMap α} {updates : Entries α} {name : String}
    (absent : name ∉ Entries.keys updates) : (m.insertAll updates).get? name = m.get? name := by
  have unwritten : Entries.get? updates.reverse name = none := by
    rw [Entries.get?_eq_none_iff]
    simpa [Entries.keys] using absent
  simp only [insertAll, get?, Entries.get?_putAll, unwritten, Option.none_or]

theorem isEmpty_iff {m : OrderedMap α} : m.isEmpty = true ↔ ∀ name, m.get? name = none := by
  rw [isEmpty, List.isEmpty_iff]
  constructor
  · intro empty name
    rw [get?, empty, Entries.get?_nil]
  · intro absent
    rw [List.eq_nil_iff_forall_not_mem]
    rintro ⟨name, v⟩ member
    have found := get?_of_mem member
    rw [absent name] at found
    cases found

/-- The same names with values changed by a function of name and value. -/
def mapValues (f : String → α → β) (m : OrderedMap α) : OrderedMap β :=
  m.filterMap fun name value => some (f name value)

theorem get?_mapValues (f : String → α → β) (m : OrderedMap α) (name : String) :
    (m.mapValues f).get? name = (m.get? name).map (f name) := by
  rw [mapValues, get?_filterMap]
  cases m.get? name <;> rfl

theorem mapValues_congr {f g : String → α → β} {m : OrderedMap α}
    (same : ∀ name v, m.get? name = some v → f name v = g name v) :
    m.mapValues f = m.mapValues g := by
  refine OrderedMap.ext (List.filterMap_congr ?_)
  rintro ⟨name, v⟩ member
  simp [same name v (get?_of_mem member)]

@[simp] theorem keys_mapValues (f : String → α → β) (m : OrderedMap α) :
    (m.mapValues f).keys = m.keys := by
  simp [mapValues, filterMap, keys, Entries.keys, List.filterMap_eq_map', Function.comp_def]

end OrderedMap

end CallGuard
