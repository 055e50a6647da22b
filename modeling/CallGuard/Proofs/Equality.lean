import CallGuard.Proofs.Value
import Mathlib.Data.List.Perm.Subperm

/-!
# Equality of values

Mappings are equal where one holds as many entries as the other and the other reads an equal value
at the name of each.  Counting distinct names makes this mutual, so equality is symmetric and
transitive; it is reflexive where no float is a NaN, and only there.
-/

namespace CallGuard

theorem Binary64.equal_iff {x y : Binary64} : x.equal y = true ↔
    x.isNaN = false ∧ y.isNaN = false ∧ (x = y ∨ x.isZero = true ∧ y.isZero = true) := by
  obtain ⟨xBits⟩ := x
  obtain ⟨yBits⟩ := y
  simp [Binary64.equal, and_assoc]

/-! ## Entries that are covered by others -/

namespace Entries

variable {α β γ : Type} {r : α → β → Prop} {es : Entries α} {fs : Entries β} {name : String}

/-- As many entries as others, which read a related value at the name of each. -/
structure Covered (r : α → β → Prop) (es : Entries α) (fs : Entries β) : Prop where
  length : es.length = fs.length
  reads : ∀ entry ∈ es, ∃ w, get? fs entry.1 = some w ∧ r entry.2 w

namespace Covered

theorem get? (covered : Covered r es fs) {v : α} (found : Entries.get? es name = some v) :
    ∃ w, Entries.get? fs name = some w ∧ r v w :=
  covered.reads _ (mem_of_get? found)

theorem imp {s : α → β → Prop} (covered : Covered r es fs)
    (h : ∀ entry ∈ es, ∀ w, r entry.2 w → s entry.2 w) : Covered s es fs where
  length := covered.length
  reads entry member := by
    obtain ⟨w, found, related⟩ := covered.reads entry member
    exact ⟨w, found, h entry member w related⟩

/-- Distinct names of the same number that others hold are all that the others hold. -/
theorem keys_perm (covered : Covered r es fs) (distinct : es.keys.Nodup) :
    es.keys.Perm fs.keys := by
  have subset : es.keys ⊆ fs.keys := by
    intro name member
    obtain ⟨entry, inside, rfl⟩ := List.mem_map.mp member
    obtain ⟨w, found, -⟩ := covered.reads entry inside
    exact mem_keys_of_mem (mem_of_get? found)
  apply (distinct.subperm subset).perm_of_length_le
  simp [keys, covered.length]

theorem nodup (covered : Covered r es fs) (distinct : es.keys.Nodup) : fs.keys.Nodup :=
  (covered.keys_perm distinct).nodup_iff.mp distinct

theorem get?_eq_none_iff (covered : Covered r es fs) (distinct : es.keys.Nodup) :
    Entries.get? es name = none ↔ Entries.get? fs name = none := by
  rw [Entries.get?_eq_none_iff, Entries.get?_eq_none_iff, (covered.keys_perm distinct).mem_iff]

/-- Covering is mutual where the names are distinct. -/
theorem swap (covered : Covered r es fs) (distinct : es.keys.Nodup) :
    Covered (fun w v => r v w) fs es where
  length := covered.length.symm
  reads entry member := by
    have known : entry.1 ∈ es.keys :=
      (covered.keys_perm distinct).mem_iff.mpr (mem_keys_of_mem member)
    obtain ⟨v, found⟩ := Option.isSome_iff_exists.mp (isSome_get?_iff.mpr known)
    obtain ⟨w, there, related⟩ := covered.get? found
    rw [get?_of_mem (covered.nodup distinct) member] at there
    cases there
    exact ⟨v, found, related⟩

theorem trans {s : β → γ → Prop} {gs : Entries γ} (covered : Covered r es fs)
    (covered' : Covered s fs gs) : Covered (fun v u => ∃ w, r v w ∧ s w u) es gs where
  length := covered.length.trans covered'.length
  reads entry member := by
    obtain ⟨w, found, related⟩ := covered.reads entry member
    obtain ⟨u, found', related'⟩ := covered'.get? found
    exact ⟨u, found', w, related, related'⟩

/-- Entries with the same distinct names that read related values. -/
theorem of_reads (distinct : es.keys.Nodup) (distinct' : fs.keys.Nodup)
    (names : ∀ name, name ∈ es.keys ↔ name ∈ fs.keys)
    (reads : ∀ name v, Entries.get? es name = some v →
      ∃ w, Entries.get? fs name = some w ∧ r v w) : Covered r es fs where
  length := by
    have perm := (List.perm_ext_iff_of_nodup distinct distinct').mpr names
    simpa [keys] using perm.length_eq
  reads entry member := reads entry.1 entry.2 (get?_of_mem distinct member)

theorem filter (covered : Covered r es fs) (distinct : es.keys.Nodup) (p : String → Bool) :
    Covered r (es.filter fun entry => p entry.1) (fs.filter fun entry => p entry.1) := by
  have perm := covered.keys_perm distinct
  refine of_reads ?_ ?_ (fun name => ?_) (fun name v found => ?_)
  · exact keys_filter p es ▸ distinct.filter p
  · exact keys_filter p fs ▸ (covered.nodup distinct).filter p
  · rw [keys_filter, keys_filter, List.mem_filter, List.mem_filter, perm.mem_iff]
  · rw [get?_filter] at found ⊢
    split at found
    · next kept =>
      simp only [kept, if_true]
      exact covered.get? found
    · cases found

end Covered

/-- Merging keeps entries covered: a name that comes twice takes its last value on both sides. -/
theorem covered_merged {declared kept : Entries α} {declared' kept' : Entries β}
    (aligned : Aligned r declared declared') (covered : Covered r kept kept')
    (distinct : kept.keys.Nodup) :
    Covered r (merged (declared ++ kept)) (merged (declared' ++ kept')) := by
  refine .of_reads (nodup_keys_putAll (by simp) _) (nodup_keys_putAll (by simp) _)
    (fun name => ?_) (fun name v found => ?_)
  · simp only [mem_keys_merged_iff, keys_append, List.mem_append, aligned.keys_eq,
      (covered.keys_perm distinct).mem_iff]
  · simp only [merged, get?_putAll, get?_nil, Option.or_none, List.reverse_append, get?_append,
      get?_reverse distinct, get?_reverse (covered.nodup distinct)] at found ⊢
    cases late : get? kept name with
    | some v' =>
      obtain ⟨w, late', related⟩ := covered.get? late
      rw [late, Option.some_or] at found
      cases found
      exact ⟨w, by rw [late', Option.some_or], related⟩
    | none =>
      have late' := (covered.get?_eq_none_iff distinct).mp late
      rw [late, Option.none_or] at found
      rw [late', Option.none_or]
      have reversed : Aligned r declared.reverse declared'.reverse :=
        List.forall₂_reverse_iff.mpr aligned
      exact reversed.get? found

end Entries

/-! ## A partial equivalence -/

namespace Value

theorem equal_map_iff_covered {entries others : Entries Value} :
    (map entries).equal (map others) = true ↔
      Entries.Covered (fun v w => v.equal w = true) entries others := by
  simp only [equal, Bool.and_eq_true, beq_iff_eq, coveredBy_iff]
  exact ⟨fun both => ⟨both.1, both.2⟩, fun covered => ⟨covered.length, covered.reads⟩⟩

theorem equal_record_iff_covered {typeName typeName' : String} {fields others : Entries Value} :
    (record typeName fields).equal (record typeName' others) = true ↔
      typeName = typeName' ∧ Entries.Covered (fun v w => v.equal w = true) fields others := by
  simp only [equal, Bool.and_eq_true, beq_iff_eq, coveredBy_iff, and_assoc]
  exact and_congr_right fun _ =>
    ⟨fun both => ⟨both.1, both.2⟩, fun covered => ⟨covered.length, covered.reads⟩⟩

variable {v w : Value}

/-! A value that equals another of some build is built alike from members that are equal. -/

theorem exists_of_equal_list {items : List Value} (equal : (list items).equal w = true) :
    ∃ others, w = list others ∧ List.Forall₂ (fun v w => v.equal w = true) items others := by
  cases w with
  | list others => exact ⟨others, rfl, equal_list_iff.mp equal⟩
  | _ => simp [Value.equal] at equal

theorem exists_of_equal_map {entries : Entries Value} (equal : (map entries).equal w = true) :
    ∃ others, w = map others ∧
      Entries.Covered (fun v w => v.equal w = true) entries others := by
  cases w with
  | map others => exact ⟨others, rfl, equal_map_iff_covered.mp equal⟩
  | _ => simp [Value.equal] at equal

theorem exists_of_equal_record {typeName : String} {fields : Entries Value}
    (equal : (record typeName fields).equal w = true) :
    ∃ others, w = record typeName others ∧
      Entries.Covered (fun v w => v.equal w = true) fields others := by
  cases w with
  | record typeName' others =>
    obtain ⟨rfl, covered⟩ := equal_record_iff_covered.mp equal
    exact ⟨others, rfl, covered⟩
  | _ => simp [Value.equal] at equal

/-- Equality is transitive. -/
theorem equal_trans {u : Value} (first : u.equal v = true) (second : v.equal w = true) :
    u.equal w = true := by
  induction u using Value.induction generalizing v w with
  | null | bool | int | str =>
    cases v <;> simp only [equal, Bool.false_eq_true, beq_iff_eq] at first
    subst_vars
    exact second
  | float x =>
    cases v <;> simp only [equal, Bool.false_eq_true] at first
    cases w <;> simp only [equal, Bool.false_eq_true] at second ⊢
    rw [Binary64.equal_iff] at first second ⊢
    grind
  | list items ih =>
    obtain ⟨items', rfl, each⟩ := exists_of_equal_list first
    obtain ⟨others, rfl, each'⟩ := exists_of_equal_list second
    rw [equal_list_iff]
    refine List.forall₂_of_length_eq_of_get (each.length_eq.trans each'.length_eq) ?_
    intro i h h''
    have h' : i < items'.length := each.length_eq ▸ h
    exact ih _ (List.get_mem _ _) (each.get h h') (each'.get h' h'')
  | map entries ih =>
    obtain ⟨entries', rfl, covered⟩ := exists_of_equal_map first
    obtain ⟨others, rfl, covered'⟩ := exists_of_equal_map second
    rw [equal_map_iff_covered]
    refine (covered.trans covered').imp fun entry member u both => ?_
    obtain ⟨w, here, there⟩ := both
    exact ih entry member here there
  | record typeName fields ih =>
    obtain ⟨fields', rfl, covered⟩ := exists_of_equal_record first
    obtain ⟨others, rfl, covered'⟩ := exists_of_equal_record second
    rw [equal_record_iff_covered]
    refine ⟨rfl, (covered.trans covered').imp fun entry member u both => ?_⟩
    obtain ⟨w, here, there⟩ := both
    exact ih entry member here there

/-- Equality is symmetric where names are distinct. -/
theorem equal_symm (distinct : v.Every DistinctNames) (equal : v.equal w = true) :
    w.equal v = true := by
  induction v using Value.induction generalizing w with
  | null | bool | int | str =>
    cases w <;> simp only [Value.equal, Bool.false_eq_true, beq_iff_eq] at equal
    subst_vars
    simp [Value.equal]
  | float x =>
    cases w <;> simp only [Value.equal, Bool.false_eq_true] at equal ⊢
    rw [Binary64.equal_iff] at equal ⊢
    grind
  | list items ih =>
    obtain ⟨others, rfl, each⟩ := exists_of_equal_list equal
    have each' := (List.forall₂_and_left _ _).mpr ⟨fun item member => member, each⟩
    exact equal_list_iff.mpr (each'.imp fun item other both =>
      ih item both.1 (distinct.item both.1) both.2).flip
  | map entries ih =>
    obtain ⟨others, rfl, covered⟩ := exists_of_equal_map equal
    refine equal_map_iff_covered.mpr (.swap ?_ (distinct.self entries rfl))
    exact covered.imp fun entry member w => ih entry member (distinct.entry rfl member)
  | record typeName fields ih =>
    obtain ⟨others, rfl, covered⟩ := exists_of_equal_record equal
    refine equal_record_iff_covered.mpr ⟨rfl, .swap ?_ (distinct.self fields rfl)⟩
    exact covered.imp fun entry member w => ih entry member (distinct.entry rfl member)

/-- What equals some value holds no NaN. -/
theorem isNumber_of_equal (equal : v.equal w = true) : v.Every IsNumber := by
  induction v using Value.induction generalizing w with
  | null | bool | int | str => simp [Every, parts, IsNumber]
  | float x =>
    cases w <;> simp only [Value.equal, Bool.false_eq_true] at equal
    simp [Every, parts, IsNumber, (Binary64.equal_iff.mp equal).1]
  | list items ih =>
    obtain ⟨others, rfl, each⟩ := exists_of_equal_list equal
    refine .of_list (by simp [IsNumber]) fun item member => ?_
    obtain ⟨other, -, related⟩ := Entries.exists_mem_of_forall₂ each member
    exact ih item member related
  | map entries ih =>
    obtain ⟨others, rfl, covered⟩ := exists_of_equal_map equal
    refine .of_map (by simp [IsNumber]) fun entry member => ?_
    obtain ⟨w, -, related⟩ := covered.reads entry member
    exact ih entry member related
  | record typeName fields ih =>
    obtain ⟨others, rfl, covered⟩ := exists_of_equal_record equal
    refine .of_record (by simp [IsNumber]) fun entry member => ?_
    obtain ⟨w, -, related⟩ := covered.reads entry member
    exact ih entry member related

end Value

end CallGuard
