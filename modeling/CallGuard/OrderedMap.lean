/-!
# Insertion-ordered maps

Names mapped to values in the order in which they first appeared.  The raw form is an
association list (`Entries`); `OrderedMap` is such a list with pairwise distinct names.
Writing to a name that is present keeps its position and replaces its value, so equal
names never occur twice.
-/

namespace CallGuard

/-- Name/value pairs in order. -/
abbrev Entries (α : Type) := List (String × α)

namespace Entries

variable {α β : Type}

/-- The names, in order. -/
def keys (entries : Entries α) : List String := entries.map Prod.fst

/-- The value at a name; of repeated names the first counts. -/
def get? (entries : Entries α) (name : String) : Option α := entries.lookup name

/-- Whether a name occurs. -/
def contains (entries : Entries α) (name : String) : Bool := (entries.get? name).isSome

/-- Writes a value at a name: in place where the name is present, else at the end. -/
def put : Entries α → String → α → Entries α
  | [], name, value => [(name, value)]
  | (k, v) :: rest, name, value =>
    if k = name then (k, value) :: rest else (k, v) :: put rest name value

/-- Writes pairs one after another. -/
def putAll (entries : Entries α) (updates : Entries α) : Entries α :=
  updates.foldl (fun acc pair => acc.put pair.1 pair.2) entries

/-- Pairs with repeated names merged: a name keeps its first position and its last value. -/
def merged (pairs : Entries α) : Entries α := putAll [] pairs

/-- Writing to a present name leaves the names as they are; a new name goes to the end. -/
theorem keys_put (entries : Entries α) (name : String) (value : α) :
    (entries.put name value).keys =
      if name ∈ entries.keys then entries.keys else entries.keys ++ [name] := by
  induction entries with
  | nil => simp [put, keys]
  | cons pair rest ih =>
    obtain ⟨k, v⟩ := pair
    by_cases h : k = name
    · simp [put, keys, h]
    · simp only [put, h, if_false, keys, List.map_cons, List.mem_cons] at ih ⊢
      rw [ih]
      by_cases hmem : name ∈ List.map Prod.fst rest
      · simp [hmem]
      · simp [hmem, Ne.symm h]

theorem nodup_keys_put {entries : Entries α} (h : entries.keys.Nodup) (name : String) (value : α) :
    (entries.put name value).keys.Nodup := by
  rw [keys_put]
  split
  · exact h
  · next hmem =>
    rw [List.nodup_append]
    exact ⟨h, by simp, fun a ha b hb => by
      simp only [List.mem_singleton] at hb
      rintro rfl
      exact hmem (hb ▸ ha)⟩

theorem nodup_keys_putAll {entries : Entries α} (h : entries.keys.Nodup) (updates : Entries α) :
    (entries.putAll updates).keys.Nodup := by
  induction updates generalizing entries with
  | nil => exact h
  | cons pair rest ih => exact ih (nodup_keys_put h pair.1 pair.2)

/-- Reading back what was written. -/
theorem get?_put_self (entries : Entries α) (name : String) (value : α) :
    (entries.put name value).get? name = some value := by
  induction entries with
  | nil => simp [put, get?]
  | cons pair rest ih =>
    obtain ⟨k, v⟩ := pair
    by_cases h : k = name
    · simp [put, get?, h]
    · have hne : (name == k) = false := by simpa using Ne.symm h
      simpa [put, h, get?, List.lookup_cons, hne] using ih

/-- Writing at one name leaves the others alone. -/
theorem get?_put_of_ne (entries : Entries α) {name other : String} (value : α) (h : other ≠ name) :
    (entries.put name value).get? other = entries.get? other := by
  induction entries with
  | nil =>
    have hne : (other == name) = false := by simpa using h
    simp [put, get?, List.lookup_cons, hne]
  | cons pair rest ih =>
    obtain ⟨k, v⟩ := pair
    by_cases hk : k = name
    · subst hk
      have hne : (other == k) = false := by simpa using h
      simp [put, get?, List.lookup_cons, hne]
    · simp only [put, hk, if_false, get?, List.lookup_cons] at ih ⊢
      rw [ih]

end Entries

/-- An insertion-ordered map: pairs whose names are pairwise distinct. -/
structure OrderedMap (α : Type) where
  entries : Entries α
  nodup : entries.keys.Nodup

namespace OrderedMap

variable {α β : Type}

@[ext] theorem ext {a b : OrderedMap α} (h : a.entries = b.entries) : a = b := by
  cases a; cases b; cases h; rfl

/-- The map without entries. -/
def empty : OrderedMap α := ⟨[], List.nodup_nil⟩

instance : Inhabited (OrderedMap α) := ⟨empty⟩

/-- The names, in order of insertion. -/
def keys (m : OrderedMap α) : List String := m.entries.keys

/-- The value at a name. -/
def get? (m : OrderedMap α) (name : String) : Option α := m.entries.get? name

/-- Whether a name is present. -/
def contains (m : OrderedMap α) (name : String) : Bool := m.entries.contains name

/-- Number of entries. -/
def size (m : OrderedMap α) : Nat := m.entries.length

/-- Whether there is no entry. -/
def isEmpty (m : OrderedMap α) : Bool := m.entries.isEmpty

/-- Writes a value at a name, in place where the name is present. -/
def insert (m : OrderedMap α) (name : String) (value : α) : OrderedMap α :=
  ⟨m.entries.put name value, Entries.nodup_keys_put m.nodup name value⟩

@[simp] theorem get?_insert_self (m : OrderedMap α) (name : String) (value : α) :
    (m.insert name value).get? name = some value :=
  Entries.get?_put_self m.entries name value

theorem get?_insert_of_ne (m : OrderedMap α) {name other : String} (value : α)
    (h : other ≠ name) : (m.insert name value).get? other = m.get? other :=
  Entries.get?_put_of_ne m.entries value h

/-- Writes pairs one after another. -/
def insertAll (m : OrderedMap α) (pairs : Entries α) : OrderedMap α :=
  ⟨m.entries.putAll pairs, Entries.nodup_keys_putAll m.nodup pairs⟩

/-- The map of a list of pairs: a repeated name keeps its first position and its last value. -/
def ofList (pairs : Entries α) : OrderedMap α := empty.insertAll pairs

/-- Keeps the entries for which `f` yields a value, with that value. -/
def filterMap (f : String → α → Option β) (m : OrderedMap α) : OrderedMap β where
  entries := m.entries.filterMap fun pair => (f pair.1 pair.2).map fun value => (pair.1, value)
  nodup := by
    refine List.Sublist.nodup ?_ m.nodup
    generalize m.entries = entries
    induction entries with
    | nil => simp [Entries.keys]
    | cons pair rest ih =>
      cases hf : f pair.1 pair.2 with
      | none => simpa [Entries.keys, List.filterMap_cons, hf] using ih.cons pair.1
      | some value => simpa [Entries.keys, List.filterMap_cons, hf] using ih.cons_cons pair.1

end OrderedMap

end CallGuard
