/-!
# Unique names

All graph levels of a conversion draw their names from one pool. A fresh name is a base with the
least free number behind it; an instance name is the base itself when it is free. The counters only
remember where the search for a free number may begin.
-/

namespace TensorGraph

/-- A base with a number behind it. -/
def numbered (base : String) (n : Nat) : String :=
  base ++ "_" ++ toString n

/-- The names that are taken, and where to go on for each base. -/
structure NamePool where
  used : List String
  counters : List (String × Nat)
  instances : List (String × Nat)
  deriving DecidableEq, Repr

namespace NamePool

/-- Nothing is taken. -/
def empty : NamePool := ⟨[], [], []⟩

/-- Is the name taken? -/
def isUsed (pool : NamePool) (name : String) : Bool :=
  pool.used.contains name

/-- Mark a name as taken. -/
def reserve (pool : NamePool) (name : String) : NamePool :=
  if pool.isUsed name then pool else { pool with used := name :: pool.used }

/-- Mark a name as taken, and say whether it was free. -/
def tryReserve (pool : NamePool) (name : String) : Bool × NamePool :=
  (!pool.isUsed name, pool.reserve name)

/-- Set the number of a base. -/
def setNumber (base : String) (n : Nat) (numbers : List (String × Nat)) : List (String × Nat) :=
  (base, n) :: numbers.filter fun entry => entry.1 != base

/-- The first free number of a base from `n` on, among the next `tries`. -/
def freeNumber (pool : NamePool) (base : String) : Nat → Nat → Nat
  | 0, n => n
  | tries + 1, n => if pool.isUsed (numbered base n) then pool.freeNumber base tries (n + 1) else n

/-- The first free number of a base from `n` on. There are no more taken numbers than taken
names. -/
def firstFree (pool : NamePool) (base : String) (n : Nat) : Nat :=
  pool.freeNumber base pool.used.length n

/-- Issue a base with the first free number. -/
def fresh (pool : NamePool) (base : String) : String × NamePool :=
  let n := pool.firstFree base ((pool.counters.lookup base).getD 0)
  let name := numbered base n
  (name, { pool.reserve name with counters := setNumber base (n + 1) pool.counters })

/-- Issue a name for one more occurrence of a base: the base itself if this is the first occurrence
and it is free, otherwise the base with the count of occurrences or the next free number. -/
def freshInstance (pool : NamePool) (base : String) : String × NamePool :=
  let count := (pool.instances.lookup base).getD 0 + 1
  if count = 1 && !pool.isUsed base then
    (base, { pool.reserve base with instances := setNumber base 1 pool.instances })
  else
    let n := pool.firstFree base (max count 2)
    let name := numbered base n
    (name, { pool.reserve name with instances := setNumber base n pool.instances })

theorem numbered_inj {base : String} {m n : Nat} (h : numbered base m = numbered base n) :
    m = n := by
  have repr : Nat.repr m = Nat.repr n := by simpa [numbered] using h
  have digits : Nat.toDigits 10 m = Nat.toDigits 10 n := by
    rw [← Nat.toList_repr, repr, Nat.toList_repr]
  rw [← Nat.ofDigitChars_ten_toDigits (n := m), digits, Nat.ofDigitChars_ten_toDigits]

/-- If the search ends at a taken number, every number up to there is taken. -/
theorem isUsed_of_isUsed_freeNumber {pool : NamePool} {base : String} {tries n : Nat}
    (h : pool.isUsed (numbered base (pool.freeNumber base tries n)) = true) {i : Nat}
    (hi : i ≤ tries) :
    pool.isUsed (numbered base (n + i)) = true := by
  induction tries generalizing n i with
  | zero =>
    obtain rfl : i = 0 := by omega
    exact h
  | succ tries ih =>
    rw [freeNumber] at h
    split at h
    · next taken =>
      cases i with
      | zero => exact taken
      | succ i =>
        have := ih h (by omega : i ≤ tries)
        rwa [Nat.add_right_comm] at this
    · next free => exact absurd h free

/-- Names that number a base distinctly need as many places. -/
theorem le_length_of_numbered_mem (base : String) (count : Nat) (names : List String) (n : Nat)
    (h : ∀ i < count, numbered base (n + i) ∈ names) : count ≤ names.length := by
  induction count generalizing names n with
  | zero => omega
  | succ count ih =>
    have first : numbered base n ∈ names := by simpa using h 0 (by omega)
    have rest : ∀ i < count, numbered base (n + 1 + i) ∈ names.erase (numbered base n) := by
      intro i hi
      refine (List.mem_erase_of_ne fun he => ?_).mpr ?_
      · have := numbered_inj he
        omega
      · have := h (i + 1) (by omega)
        rwa [← Nat.add_assoc, Nat.add_right_comm] at this
    have := ih (names.erase (numbered base n)) (n + 1) rest
    rw [List.length_erase_of_mem first] at this
    have := List.length_pos_of_mem first
    omega

/-- The number that the search finds is free. -/
theorem isUsed_numbered_firstFree (pool : NamePool) (base : String) (n : Nat) :
    pool.isUsed (numbered base (pool.firstFree base n)) = false := by
  cases h : pool.isUsed (numbered base (pool.firstFree base n)) with
  | false => rfl
  | true =>
    have all : ∀ i < pool.used.length + 1, numbered base (n + i) ∈ pool.used := by
      intro i hi
      simpa [isUsed] using isUsed_of_isUsed_freeNumber h (by omega : i ≤ pool.used.length)
    have := le_length_of_numbered_mem base _ _ n all
    omega

theorem mem_used_reserve (pool : NamePool) (name other : String) :
    other ∈ (pool.reserve name).used ↔ other = name ∨ other ∈ pool.used := by
  unfold reserve
  split
  · next h =>
    constructor
    · exact Or.inr
    · rintro (rfl | h')
      · simpa [isUsed] using h
      · exact h'
  · simp

/-- A name is issued: it was free, and it is the one name that is taken in addition. -/
structure Issues (pool : NamePool) (name : String) (next : NamePool) : Prop where
  free : name ∉ pool.used
  used : ∀ other, other ∈ next.used ↔ other = name ∨ other ∈ pool.used

theorem not_mem_used_of_isUsed {pool : NamePool} {name : String} (h : pool.isUsed name = false) :
    name ∉ pool.used := by
  simpa [isUsed] using h

/-- Fresh names are issued. -/
theorem issues_fresh (pool : NamePool) (base : String) :
    pool.Issues (pool.fresh base).1 (pool.fresh base).2 :=
  ⟨not_mem_used_of_isUsed (isUsed_numbered_firstFree pool base _), mem_used_reserve pool _⟩

/-- Instance names are issued. -/
theorem issues_freshInstance (pool : NamePool) (base : String) :
    pool.Issues (pool.freshInstance base).1 (pool.freshInstance base).2 := by
  simp only [freshInstance]
  split
  · next h =>
    simp only [Bool.and_eq_true, Bool.not_eq_true'] at h
    exact ⟨not_mem_used_of_isUsed h.2, mem_used_reserve pool base⟩
  · exact ⟨not_mem_used_of_isUsed (isUsed_numbered_firstFree pool base _), mem_used_reserve pool _⟩

theorem mem_used_foldl_reserve (names : List String) (pool : NamePool) (other : String) :
    other ∈ (names.foldl reserve pool).used ↔ other ∈ names ∨ other ∈ pool.used := by
  induction names generalizing pool with
  | nil => simp
  | cons name rest ih =>
    rw [List.foldl_cons, ih, mem_used_reserve, List.mem_cons]
    constructor
    · rintro (h | h | h)
      · exact Or.inl (Or.inr h)
      · exact Or.inl (Or.inl h)
      · exact Or.inr h
    · rintro ((h | h) | h)
      · exact Or.inr (Or.inl h)
      · exact Or.inl h
      · exact Or.inr (Or.inr h)

example : (empty.fresh "a").1 = "a_0" := by decide +kernel
example : ((empty.freshInstance "B").2.freshInstance "B").1 = "B_2" := by decide +kernel

end NamePool

end TensorGraph
