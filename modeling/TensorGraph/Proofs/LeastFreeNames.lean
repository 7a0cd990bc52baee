import Mathlib.Data.List.Induction
import Mathlib.Data.List.Nodup
import Mathlib.Order.Bounds.Basic
import TensorGraph.Keyed
import TensorGraph.NamePool

/-!
# Names depend on the taken names alone

A pool keeps a number for each base, from which it goes on searching. What it answers is a function
of the set of taken names all the same : `Expects` says of each request what has to be answered
where a set of names is taken, without any numbers, and after every history of requests this is what
the pool answers (`replies_expected`).

The numbers of a pool only skip taken names (`Cached`). Names stay taken, so requests of any kind
for any base keep this (`Cached.respond`), and so the least free number from where a search begins
is the least free number of all (`Cached.isLeast_fresh`). That a search ends at a free number is in
`isUsed_numbered_firstFree`.
-/

namespace TensorGraph.NamePool

/-! ## Requests -/

/-- What a pool is asked for. -/
inductive Request where
  | fresh (base : String)
  | freshInstance (base : String)
  | reserve (name : String)

/-- What a pool answers. -/
inductive Answer where
  | issued (name : String)
  | wasFree (free : Bool)
  deriving DecidableEq

/-- The name that is issued. -/
def Answer.issued? : Answer → Option String
  | .issued name => some name
  | .wasFree _ => none

/-- The name that is reserved. -/
def Request.reserved? : Request → Option String
  | .reserve name => some name
  | _ => none

/-- Answer a request. -/
def respond (pool : NamePool) : Request → Answer × NamePool
  | .fresh base => (.issued (pool.fresh base).1, (pool.fresh base).2)
  | .freshInstance base => (.issued (pool.freshInstance base).1, (pool.freshInstance base).2)
  | .reserve name => (.wasFree (pool.tryReserve name).1, (pool.tryReserve name).2)

/-- The pool after a history of requests. -/
def leave (pool : NamePool) (history : List Request) : NamePool :=
  history.foldl (fun pool request => (pool.respond request).2) pool

/-- The answers to a history of requests. -/
def replies (pool : NamePool) : List Request → List Answer
  | [] => []
  | request :: rest => (pool.respond request).1 :: (pool.respond request).2.replies rest

/-- The names that were issued in a history, in order. -/
def issued (history : List Request) : List String :=
  (empty.replies history).filterMap Answer.issued?

/-- The names that were issued or reserved in a history. -/
def taken (history : List Request) : Set String :=
  {x | x ∈ history.filterMap Request.reserved? ∨ x ∈ issued history}

/-- The answer to a request where the names in `names` are taken. -/
inductive Expects (names : Set String) : Request → Answer → Prop
  | fresh {base : String} {n : Nat} (least : IsLeast {n | numbered base n ∉ names} n) :
    Expects names (.fresh base) (.issued (numbered base n))
  | first {base : String} (free : base ∉ names) : Expects names (.freshInstance base) (.issued base)
  | later {base : String} {k : Nat} (known : base ∈ names)
      (least : IsLeast {k | 2 ≤ k ∧ numbered base k ∉ names} k) :
      Expects names (.freshInstance base) (.issued (numbered base k))
  | free {name : String} (free : name ∉ names) : Expects names (.reserve name) (.wasFree true)
  | known {name : String} (known : name ∈ names) : Expects names (.reserve name) (.wasFree false)

/-- There is one answer to each request. -/
theorem Expects.unique {names : Set String} {request : Request} {a b : Answer}
    (ha : Expects names request a) (hb : Expects names request b) : a = b := by
  cases ha with
  | fresh least =>
    cases hb with
    | fresh least' => rw [least.unique least']
  | first free =>
    cases hb with
    | first => rfl
    | later known => exact absurd known free
  | later known least =>
    cases hb with
    | first free => exact absurd known free
    | later _ least' => rw [least.unique least']
  | free free =>
    cases hb with
    | free => rfl
    | known known => exact absurd known free
  | known known =>
    cases hb with
    | free free => exact absurd known free
    | known => rfl

/-! ## The search for a free number -/

section Search

variable {pool : NamePool} {base : String} {m n : Nat}

/-- The search passes over taken numbers alone. -/
theorem freeNumber_spec (tries : Nat) : n ≤ pool.freeNumber base tries n ∧
    ∀ i, n ≤ i → i < pool.freeNumber base tries n → numbered base i ∈ pool.used := by
  induction tries generalizing n with
  | zero => exact ⟨Nat.le_refl n, fun i hi hlt => absurd hlt (Nat.not_lt.2 hi)⟩
  | succ tries ih =>
    rw [freeNumber]
    split
    · next taken =>
      obtain ⟨hle, hpassed⟩ := @ih (n + 1)
      refine ⟨by omega, fun i hi hlt => ?_⟩
      rcases Nat.eq_or_lt_of_le hi with rfl | hi
      · simpa [isUsed] using taken
      · exact hpassed i hi hlt
    · exact ⟨Nat.le_refl n, fun i hi hlt => absurd hlt (Nat.not_lt.2 hi)⟩

/-- Where the numbers before the start of a search are taken, the search finds the least free
number. -/
theorem isLeast_firstFree (hm : m ≤ n)
    (hbefore : ∀ i, m ≤ i → i < n → numbered base i ∈ pool.used) :
    IsLeast {k | m ≤ k ∧ numbered base k ∉ pool.used} (pool.firstFree base n) := by
  obtain ⟨hle, hpassed⟩ := @freeNumber_spec pool base n pool.used.length
  refine ⟨⟨Nat.le_trans hm hle, not_mem_used_of_isUsed (isUsed_numbered_firstFree pool base n)⟩,
    fun k hk => ?_⟩
  refine Nat.le_of_not_lt fun hlt => hk.2 ?_
  rcases Nat.lt_or_ge k n with hkn | hkn
  · exact hbefore k hk.1 hkn
  · exact hpassed k hkn hlt

end Search

/-! ## Numbers skip taken names -/

theorem lookup_setNumber (base other : String) (n : Nat) (numbers : List (String × Nat)) :
    (setNumber base n numbers).lookup other = if other = base then some n
      else numbers.lookup other := by
  by_cases h : other = base
  · simp [setNumber, h]
  · have hne : (other == base) = false := by simpa using h
    rw [setNumber, List.lookup_cons, hne, if_neg h]
    exact Keyed.lookup_filter_ne h numbers

/-- The numbers where a pool goes on searching leave out taken names alone. -/
structure Cached (pool : NamePool) : Prop where
  counters : ∀ base n, pool.counters.lookup base = some n → ∀ i < n, numbered base i ∈ pool.used
  instances : ∀ base k, pool.instances.lookup base = some k →
    base ∈ pool.used ∧ ∀ i, 2 ≤ i → i ≤ k → numbered base i ∈ pool.used

@[simp] theorem counters_reserve (pool : NamePool) (name : String) :
    (pool.reserve name).counters = pool.counters := by
  unfold reserve
  split <;> rfl

@[simp] theorem instances_reserve (pool : NamePool) (name : String) :
    (pool.reserve name).instances = pool.instances := by
  unfold reserve
  split <;> rfl

/-- A request takes the name that it issues or reserves, and no other. -/
theorem mem_used_respond (pool : NamePool) (request : Request) (x : String) :
    x ∈ (pool.respond request).2.used ↔
      x ∈ pool.used ∨ request.reserved? = some x ∨ (pool.respond request).1.issued? = some x := by
  cases request with
  | fresh base =>
    simpa [respond, Request.reserved?, Answer.issued?, or_comm, eq_comm]
      using (pool.issues_fresh base).used x
  | freshInstance base =>
    simpa [respond, Request.reserved?, Answer.issued?, or_comm, eq_comm]
      using (pool.issues_freshInstance base).used x
  | reserve name =>
    simpa [respond, Request.reserved?, Answer.issued?, tryReserve, or_comm, eq_comm]
      using pool.mem_used_reserve name x

namespace Cached

variable {pool next : NamePool} {base : String}

theorem empty : NamePool.empty.Cached :=
  ⟨fun _ _ h => by simp [NamePool.empty] at h, fun _ _ h => by simp [NamePool.empty] at h⟩

/-- Names that are taken in addition do no harm. -/
theorem reserve (h : pool.Cached) (name : String) : (pool.reserve name).Cached where
  counters base n hn i hi := by
    rw [counters_reserve] at hn
    exact (pool.mem_used_reserve name _).2 (Or.inr (h.counters base n hn i hi))
  instances base k hk := by
    rw [instances_reserve] at hk
    obtain ⟨hbase, hnumbers⟩ := h.instances base k hk
    exact ⟨(pool.mem_used_reserve name _).2 (Or.inr hbase),
      fun i hi hik => (pool.mem_used_reserve name _).2 (Or.inr (hnumbers i hi hik))⟩

theorem setCounter (h : pool.Cached) {n : Nat} (hn : ∀ i < n, numbered base i ∈ pool.used) :
    Cached { pool with counters := setNumber base n pool.counters } where
  counters other m hm := by
    rw [lookup_setNumber] at hm
    split at hm
    · next heq =>
      obtain rfl := Option.some.inj hm
      rw [heq]
      exact hn
    · exact h.counters other m hm
  instances := h.instances

theorem setInstance (h : pool.Cached) {k : Nat} (hbase : base ∈ pool.used)
    (hk : ∀ i, 2 ≤ i → i ≤ k → numbered base i ∈ pool.used) :
    Cached { pool with instances := setNumber base k pool.instances } where
  counters := h.counters
  instances other m hm := by
    rw [lookup_setNumber] at hm
    split at hm
    · next heq =>
      obtain rfl := Option.some.inj hm
      rw [heq]
      exact ⟨hbase, hk⟩
    · exact h.instances other m hm

/-- A fresh name has the least free number. -/
theorem isLeast_fresh (h : pool.Cached) (base : String) :
    IsLeast {n | numbered base n ∉ pool.used}
      (pool.firstFree base ((pool.counters.lookup base).getD 0)) := by
  have hleast :=
    @isLeast_firstFree pool base 0 ((pool.counters.lookup base).getD 0) (Nat.zero_le _)
      fun i _ hi => by
    cases hlookup : pool.counters.lookup base with
    | none => simp [hlookup] at hi
    | some n => exact h.counters base n hlookup i (by simpa [hlookup] using hi)
  simpa using hleast

/-- A later occurrence has the least free number from two on. -/
theorem isLeast_later (h : pool.Cached) (base : String) :
    IsLeast {k | 2 ≤ k ∧ numbered base k ∉ pool.used}
      (pool.firstFree base (max ((pool.instances.lookup base).getD 0 + 1) 2)) := by
  refine isLeast_firstFree (Nat.le_max_right _ _) fun i hi hlt => ?_
  cases hlookup : pool.instances.lookup base with
  | none =>
    simp only [hlookup, Option.getD_none] at hlt
    omega
  | some k =>
    simp only [hlookup, Option.getD_some] at hlt
    exact (h.instances base k hlookup).2 i hi (by omega)

/-- A base that has a number is taken, so a free base is at its first occurrence. -/
theorem instances_eq_none (h : pool.Cached) (hfree : base ∉ pool.used) :
    pool.instances.lookup base = none := by
  cases hlookup : pool.instances.lookup base with
  | none => rfl
  | some k => exact absurd (h.instances base k hlookup).1 hfree

theorem freshInstance_of_free (h : pool.Cached) (hfree : base ∉ pool.used) :
    pool.freshInstance base =
      (base, { pool.reserve base with instances := setNumber base 1 pool.instances }) := by
  simp [freshInstance, h.instances_eq_none hfree, isUsed, hfree]

theorem freshInstance_of_taken (hbase : base ∈ pool.used) :
    let k := pool.firstFree base (max ((pool.instances.lookup base).getD 0 + 1) 2)
    pool.freshInstance base =
      (numbered base k,
        { pool.reserve (numbered base k) with instances := setNumber base k pool.instances }) := by
  simp [freshInstance, isUsed, hbase]

/-- What a pool answers is what has to be answered where its names are taken. -/
theorem expects_respond (h : pool.Cached) (request : Request) :
    Expects {x | x ∈ pool.used} request (pool.respond request).1 := by
  cases request with
  | fresh base => exact .fresh (h.isLeast_fresh base)
  | freshInstance base =>
    simp only [NamePool.respond]
    by_cases hbase : base ∈ pool.used
    · rw [freshInstance_of_taken hbase]
      exact .later hbase (h.isLeast_later base)
    · rw [h.freshInstance_of_free hbase]
      exact .first hbase
  | reserve name =>
    simp only [NamePool.respond, tryReserve]
    cases hused : pool.isUsed name with
    | false => exact .free (not_mem_used_of_isUsed hused)
    | true => exact .known (by simpa [isUsed] using hused)

/-- When a name is issued whose number is no greater than a free one, the numbers up to it are
taken. -/
theorem numbered_mem_reserve {n i : Nat} (hleast : numbered base i ∉ pool.used → n ≤ i)
    (hi : i ≤ n) :
    numbered base i ∈ (pool.reserve (numbered base n)).used := by
  rw [mem_used_reserve]
  rcases Nat.eq_or_lt_of_le hi with rfl | hlt
  · exact Or.inl rfl
  · exact Or.inr (Decidable.byContradiction fun hfree => Nat.not_le.2 hlt (hleast hfree))

theorem fresh (h : pool.Cached) (base : String) : (pool.fresh base).2.Cached := by
  have hleast := h.isLeast_fresh base
  have hnumbers : ∀ i < pool.firstFree base ((pool.counters.lookup base).getD 0) + 1,
      numbered base i ∈ (pool.reserve (pool.fresh base).1).used := fun i hi =>
    numbered_mem_reserve (fun hfree => hleast.2 hfree) (Nat.le_of_lt_succ hi)
  have hcached := (h.reserve (pool.fresh base).1).setCounter hnumbers
  rwa [counters_reserve] at hcached

theorem freshInstance (h : pool.Cached) (base : String) : (pool.freshInstance base).2.Cached := by
  by_cases hbase : base ∈ pool.used
  · rw [freshInstance_of_taken hbase]
    have hcached := (h.reserve _).setInstance ((pool.mem_used_reserve _ _).2 (Or.inr hbase))
      fun i hi hik => numbered_mem_reserve (fun hfree => (h.isLeast_later base).2 ⟨hi, hfree⟩) hik
    rwa [instances_reserve] at hcached
  · rw [h.freshInstance_of_free hbase]
    have hcached :=
      (h.reserve base).setInstance (k := 1) ((pool.mem_used_reserve _ _).2 (Or.inl rfl))
        fun i hi hik => by omega
    rwa [instances_reserve] at hcached

/-- Requests keep the numbers of a pool right. -/
theorem respond (h : pool.Cached) (request : Request) : (pool.respond request).2.Cached := by
  cases request with
  | fresh base => exact h.fresh base
  | freshInstance base => exact h.freshInstance base
  | reserve name => exact h.reserve name

/-- Pools in which the same names are taken answer alike from now on. -/
theorem replies_eq (h : pool.Cached) (hnext : next.Cached)
    (hused : ∀ x, x ∈ pool.used ↔ x ∈ next.used) (later : List Request) :
    pool.replies later = next.replies later := by
  induction later generalizing pool next with
  | nil => rfl
  | cons request rest ih =>
    have hnames : {x | x ∈ pool.used} = {x | x ∈ next.used} := Set.ext hused
    have hanswer : (pool.respond request).1 = (next.respond request).1 :=
      (h.expects_respond request).unique (hnames ▸ hnext.expects_respond request)
    rw [replies, replies, hanswer, ih (h.respond request) (hnext.respond request) fun x => ?_]
    rw [mem_used_respond, mem_used_respond, hused, hanswer]

end Cached

/-! ## Histories -/

theorem leave_append_singleton (pool : NamePool) (history : List Request) (request : Request) :
    pool.leave (history ++ [request]) = ((pool.leave history).respond request).2 := by
  simp [leave]

theorem replies_append_singleton (pool : NamePool) (history : List Request) (request : Request) :
    pool.replies (history ++ [request]) = pool.replies history ++
      [((pool.leave history).respond request).1] := by
  induction history generalizing pool with
  | nil => rfl
  | cons first rest ih =>
    have hleave : pool.leave (first :: rest) = (pool.respond first).2.leave rest := rfl
    rw [List.cons_append, replies, ih, hleave, replies, List.cons_append]

theorem issued_append_singleton (history : List Request) (request : Request) :
    issued (history ++ [request]) =
      issued history ++ ((empty.leave history).respond request).1.issued?.toList := by
  rw [issued, replies_append_singleton, List.filterMap_append, issued]
  cases h : ((empty.leave history).respond request).1.issued? <;> simp [h]

theorem cached_leave (history : List Request) : (empty.leave history).Cached := by
  induction history using List.reverseRecOn with
  | nil => exact Cached.empty
  | append_singleton history request ih =>
    rw [leave_append_singleton]
    exact ih.respond request

/-- The names that are taken are those that were issued or reserved. -/
theorem mem_used_leave (history : List Request) (x : String) :
    x ∈ (empty.leave history).used ↔ x ∈ taken history := by
  induction history using List.reverseRecOn with
  | nil => simp [leave, empty, taken, issued, replies]
  | append_singleton history request ih =>
    rw [leave_append_singleton, mem_used_respond, ih]
    have hreserved : x ∈ [request].filterMap Request.reserved? ↔ request.reserved? = some x := by
      simp
    change (_ ∨ _) ∨ _ ↔ _ ∨ _
    rw [issued_append_singleton, List.filterMap_append, List.mem_append, List.mem_append,
      Option.mem_toList, hreserved]
    tauto

/-- An issued name was free. -/
theorem not_mem_used_of_issued? {pool : NamePool} {request : Request} {x : String}
    (h : (pool.respond request).1.issued? = some x) : x ∉ pool.used := by
  cases request with
  | fresh base =>
    obtain rfl := Option.some.inj h
    exact (pool.issues_fresh base).free
  | freshInstance base =>
    obtain rfl := Option.some.inj h
    exact (pool.issues_freshInstance base).free
  | reserve name => cases h

theorem nodup_issued (history : List Request) : (issued history).Nodup := by
  induction history using List.reverseRecOn with
  | nil => exact List.nodup_nil
  | append_singleton history request ih =>
    rw [issued_append_singleton]
    cases hissued : ((empty.leave history).respond request).1.issued? with
    | none => simpa using ih
    | some x =>
      have hfree : x ∉ issued history := fun hx =>
        not_mem_used_of_issued? hissued ((mem_used_leave history x).2 (Or.inr hx))
      exact ih.append (List.nodup_singleton x) (List.disjoint_singleton.2 hfree)

/-- After every history of requests, a name is used exactly if it was issued or reserved, and every
request is answered as has to be where these names are taken. No name is issued twice, and histories
that have taken the same names cannot be told apart by what is requested later. -/
theorem replies_expected (history : List Request) :
    (∀ name, (empty.leave history).isUsed name = true ↔ name ∈ taken history) ∧
      (∀ request, Expects (taken history) request ((empty.leave history).respond request).1) ∧
      (issued history).Nodup ∧
      ∀ history', taken history' = taken history →
        ∀ later, (empty.leave history').replies later = (empty.leave history).replies later := by
  have hused : {x | x ∈ (empty.leave history).used} = taken history :=
    Set.ext (mem_used_leave history)
  refine ⟨fun name => ?_, fun request => ?_, nodup_issued history, fun history' h => ?_⟩
  · rw [← mem_used_leave]
    simp [isUsed]
  · exact hused ▸ (cached_leave history).expects_respond request
  · refine (cached_leave history').replies_eq (cached_leave history) fun x => ?_
    rw [mem_used_leave, mem_used_leave, h]

/-- Bases and reserved names that look like issued ones are passed over, or passed over by
others. -/
example :
    empty.replies [.reserve "a_1", .fresh "a", .fresh "a", .freshInstance "a_2", .freshInstance "a",
      .freshInstance "a", .fresh "a", .fresh "a_2", .reserve "a_2_0"] =
      [.wasFree true, .issued "a_0", .issued "a_2", .issued "a_2_2", .issued "a", .issued "a_3",
        .issued "a_4", .issued "a_2_0", .wasFree false] := by
  decide +kernel

end TensorGraph.NamePool
