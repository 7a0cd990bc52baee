/-!
# Lists sorted by key

A finite map with text keys is a list of pairs in the order of the keys, each key once.
-/

namespace TensorGraph.Keyed

variable {α : Type}

/-- Set the value of a key in a list that is sorted by key. -/
def set (key : String) (value : α) : List (String × α) → List (String × α)
  | [] => [(key, value)]
  | (k, v) :: rest =>
    if key == k then (key, value) :: rest
    else if key < k then (key, value) :: (k, v) :: rest
    else (k, v) :: set key value rest

/-- Pairs in the order of their keys; of two with one key the later counts. -/
def ofList (pairs : List (String × α)) : List (String × α) :=
  pairs.foldl (fun sorted pair => set pair.1 pair.2 sorted) []

/-- Looking up a key that was set finds its value. -/
theorem lookup_set_self (key : String) (value : α) (pairs : List (String × α)) :
    (set key value pairs).lookup key = some value := by
  induction pairs with
  | nil => simp [set]
  | cons pair rest ih =>
    obtain ⟨k, v⟩ := pair
    simp only [set]
    split
    · simp
    · next h =>
      have hk : (key == k) = false := by simpa using h
      split
      · simp
      · simpa [List.lookup_cons, hk] using ih

/-- Setting a key leaves every other key as it was. -/
theorem lookup_set_of_ne {key other : String} (h : other ≠ key) (value : α)
    (pairs : List (String × α)) :
    (set key value pairs).lookup other = pairs.lookup other := by
  have ho : (other == key) = false := by simpa using h
  induction pairs with
  | nil => simp [set, List.lookup_cons, ho]
  | cons pair rest ih =>
    obtain ⟨k, v⟩ := pair
    simp only [set]
    split
    · next hk =>
      obtain rfl : key = k := by simpa using hk
      simp [List.lookup_cons, ho]
    · split
      · simp [List.lookup_cons, ho]
      · simp [List.lookup_cons, ih]

/-- Leaving out the pairs of a key leaves every other key as it was. -/
theorem lookup_filter_ne {κ : Type} [BEq κ] [LawfulBEq κ] {key other : κ} (h : other ≠ key)
    (pairs : List (κ × α)) :
    (pairs.filter fun pair => pair.1 != key).lookup other = pairs.lookup other := by
  induction pairs with
  | nil => rfl
  | cons pair rest ih =>
    obtain ⟨k, v⟩ := pair
    by_cases hk : k = key
    · subst hk
      have ho : (other == k) = false := by simpa using h
      simpa [List.lookup_cons, ho] using ih
    · simp [hk, List.lookup_cons, ih]

end TensorGraph.Keyed
