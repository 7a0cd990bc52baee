import TensorGraph.Proofs.Instantiation

/-!
# Broadcasting for all lengths

Known lengths broadcast by the usual rule : the shorter shape is filled up with ones in front,
lengths at the same place are equal or one of them is one, and a one is stretched to the other
length (`Broadcastable`, `stretchedShape`). On known lengths broadcasting is this rule
(`broadcast?_known_eq_some_iff`).

Shapes with symbols broadcast exactly if their instances do for all lengths, and the result is the
only shape whose instances are the results (`broadcast?_eq_some_iff_forall_lengths`). A symbol
stands for every length, so where dimensions do not join, some lengths keep them apart
(`Dim.exists_join?`).

`broadcastLoop` computes the result place by place, with positions in the two shapes. No position
falls outside of a shape (`broadcastLoop_eq`).
-/

namespace TensorGraph

/-! ## Known lengths -/

/-- The lengths of two shapes at the same places, counted from the end. Where a shape has no more
lengths, they are ones. -/
def alignedLengths (lhs rhs : List Nat) : List (Nat × Nat) :=
  (List.zipWithAll (fun a b => (a.getD 1, b.getD 1)) lhs.reverse rhs.reverse).reverse

/-- Two shapes broadcast if lengths at the same place are equal or one of them is one. -/
def Broadcastable (lhs rhs : List Nat) : Prop :=
  ∀ place ∈ alignedLengths lhs rhs, place.1 = place.2 ∨ place.1 = 1 ∨ place.2 = 1

/-- The shape that two shapes broadcast to, where a one is stretched to the other length. -/
def stretchedShape (lhs rhs : List Nat) : List Nat :=
  (alignedLengths lhs rhs).map fun place => if place.1 = 1 then place.2 else place.1

example : stretchedShape [5, 1, 4] [3, 1] = [5, 3, 4] := by decide
example : stretchedShape [1] [0] = [0] := by decide

theorem broadcastBack?_cons_cons_eq_some_iff {a b : Dim} {lhs rhs back : List Dim} :
    broadcastBack? (a :: lhs) (b :: rhs) = some back ↔
      ∃ d rest, Dim.join? a b = some d ∧ broadcastBack? lhs rhs = some rest ∧ d :: rest = back := by
  rw [broadcastBack?]
  split
  · next d rest hjoin hrest => simp [hjoin, hrest]
  · next hnone =>
    simp only [reduceCtorEq, false_iff]
    rintro ⟨d, rest, hjoin, hrest, -⟩
    exact hnone d rest hjoin hrest

section Known

variable {lhs rhs : List Nat}

theorem join?_known_eq_some_iff {a b : Nat} {d : Dim} : Dim.join? (.known a) (.known b) = some d ↔
    (a = b ∨ a = 1 ∨ b = 1) ∧ .known (if a = 1 then b else a) = d := by
  unfold Dim.join?
  grind

theorem broadcastBack?_known_eq_some_iff {back : List Dim} :
    broadcastBack? (lhs.map .known) (rhs.map .known) = some back ↔
      (∀ place ∈ List.zipWithAll (fun a b => (a.getD 1, b.getD 1)) lhs rhs,
        place.1 = place.2 ∨ place.1 = 1 ∨ place.2 = 1) ∧
      ((List.zipWithAll (fun a b => (a.getD 1, b.getD 1)) lhs rhs).map fun place =>
        .known (if place.1 = 1 then place.2 else place.1)) = back := by
  induction lhs generalizing rhs back with
  | nil => simp [broadcastBack?, Function.comp_def]
  | cons a lhs ih =>
    cases rhs with
    | nil =>
      have hone : ∀ n : Nat, (if n = 1 then 1 else n) = n := fun n => by
        split_ifs with h <;> simp [h]
      simp [broadcastBack?, Function.comp_def, hone]
    | cons b rhs =>
      simp only [List.map_cons, broadcastBack?_cons_cons_eq_some_iff, join?_known_eq_some_iff, ih,
        List.zipWithAll_cons_cons, List.forall_mem_cons, Option.getD_some]
      constructor
      · rintro ⟨d, rest, ⟨hfit, rfl⟩, ⟨hfits, rfl⟩, rfl⟩
        exact ⟨⟨hfit, hfits⟩, rfl⟩
      · rintro ⟨⟨hfit, hfits⟩, rfl⟩
        exact ⟨_, _, ⟨hfit, rfl⟩, ⟨hfits, rfl⟩, rfl⟩

/-- On known lengths, broadcasting follows the rule. -/
theorem broadcast?_known_eq_some_iff {shape : List Dim} :
    broadcast? (lhs.map .known) (rhs.map .known) = some shape ↔
      Broadcastable lhs rhs ∧ (stretchedShape lhs rhs).map .known = shape := by
  simp only [broadcast?, Option.map_eq_some_iff, ← List.map_reverse,
    broadcastBack?_known_eq_some_iff, Broadcastable, stretchedShape, alignedLengths,
    List.mem_reverse, List.map_map]
  constructor
  · rintro ⟨_, ⟨hfits, rfl⟩, rfl⟩
    exact ⟨hfits, by simp [Function.comp_def]⟩
  · rintro ⟨hfits, rfl⟩
    exact ⟨_, ⟨hfits, rfl⟩, by simp [Function.comp_def]⟩

end Known

/-! ## All lengths -/

namespace Dim

/-- Dimensions that fit for all lengths join. A symbol stands for lengths that fit nothing but the
symbol itself and one. -/
theorem exists_join? {a b : Dim}
    (h : ∀ lengths, a.length lengths = b.length lengths ∨ a.length lengths = 1 ∨
      b.length lengths = 1) :
    ∃ d, join? a b = some d := by
  cases a with
  | known m =>
    cases b with
    | known n => exact ⟨_, join?_known_eq_some_iff.2 ⟨h fun _ => 0, rfl⟩⟩
    | symbolic j =>
      have hfit := h fun _ => m + 2
      obtain rfl : m = 1 := by simp only [length] at hfit; omega
      exact ⟨_, join?_one_left _⟩
  | symbolic i =>
    cases b with
    | known n =>
      have hfit := h fun _ => n + 2
      obtain rfl : n = 1 := by simp only [length] at hfit; omega
      exact ⟨_, join?_one_right _⟩
    | symbolic j =>
      have hfit := h fun id => id.toNat + 2
      obtain rfl : i = j := UInt32.toNat_inj.1 (by simp only [length] at hfit; omega)
      exact ⟨_, join?_self _⟩

/-- A dimension is known by its lengths. -/
theorem eq_of_forall_length {d e : Dim} (h : ∀ lengths, d.length lengths = e.length lengths) :
    d = e := by
  cases d with
  | known m =>
    cases e with
    | known n => exact congrArg known (h fun _ => 0)
    | symbolic j => exact absurd (h fun _ => m + 1) (by simp [length])
  | symbolic i =>
    cases e with
    | known n => exact absurd (h fun _ => n + 1) (by simp [length])
    | symbolic j => exact congrArg symbolic (UInt32.toNat_inj.1 (h UInt32.toNat))

theorem eq_of_forall_map_length {xs ys : List Dim}
    (h : ∀ lengths, xs.map (length lengths) = ys.map (length lengths)) :
    xs = ys := by
  induction xs generalizing ys with
  | nil => simpa using h UInt32.toNat
  | cons x xs ih =>
    cases ys with
    | nil => simpa using h UInt32.toNat
    | cons y ys =>
      simp only [List.map_cons, List.cons.injEq, forall_and] at h
      rw [eq_of_forall_length h.1, ih h.2]

end Dim

section All

variable {lhs rhs : List Dim}

theorem exists_broadcastBack?
    (h : ∀ lengths, ∃ back,
      broadcastBack? ((lhs.map (Dim.length lengths)).map .known)
      ((rhs.map (Dim.length lengths)).map .known) = some back) :
    ∃ back, broadcastBack? lhs rhs = some back := by
  induction lhs generalizing rhs with
  | nil => exact ⟨rhs, by simp [broadcastBack?]⟩
  | cons a lhs ih =>
    cases rhs with
    | nil => exact ⟨a :: lhs, by simp [broadcastBack?]⟩
    | cons b rhs =>
      simp only [List.map_cons, broadcastBack?_cons_cons_eq_some_iff, join?_known_eq_some_iff]
        at h ⊢
      obtain ⟨d, hjoin⟩ := Dim.exists_join? (a := a) (b := b) fun lengths => by
        obtain ⟨_, _, _, ⟨hfit, -⟩, -⟩ := h lengths
        exact hfit
      obtain ⟨rest, hrest⟩ := ih fun lengths => by
        obtain ⟨_, _, rest, -, hrest, -⟩ := h lengths
        exact ⟨rest, hrest⟩
      exact ⟨d :: rest, d, rest, hjoin, hrest, rfl⟩

theorem exists_broadcast?
    (h : ∀ lengths, Broadcastable (lhs.map (Dim.length lengths)) (rhs.map (Dim.length lengths))) :
    ∃ shape, broadcast? lhs rhs = some shape := by
  have hback : ∃ back, broadcastBack? lhs.reverse rhs.reverse = some back := by
    refine exists_broadcastBack? fun lengths => ?_
    obtain ⟨back, hback, -⟩ :=
      Option.map_eq_some_iff.1 (broadcast?_known_eq_some_iff.2 ⟨h lengths, rfl⟩)
    exact ⟨back, by simpa only [List.map_reverse] using hback⟩
  obtain ⟨back, hback⟩ := hback
  exact ⟨back.reverse, Option.map_eq_some_iff.2 ⟨back, hback, rfl⟩⟩

/-- Instances of shapes that broadcast follow the rule. -/
theorem broadcastable_of_broadcast? {shape : List Dim} (h : broadcast? lhs rhs = some shape)
    (lengths : UInt32 → Nat) :
    Broadcastable (lhs.map (Dim.length lengths)) (rhs.map (Dim.length lengths)) ∧
      shape.map (Dim.length lengths) =
        stretchedShape (lhs.map (Dim.length lengths)) (rhs.map (Dim.length lengths)) := by
  have hknown := broadcast?_instantiate lengths h
  simp only [← List.map_map, broadcast?_known_eq_some_iff] at hknown
  exact ⟨hknown.1, (List.map_injective_iff.2 (fun _ _ => Dim.known.inj) hknown.2).symm⟩

end All

/-! ## Place by place -/

/-- What a computation with positions can stop at. -/
inductive Fault where
  /-- A difference below zero. -/
  | negative
  /-- A position outside of a list. -/
  | outside

/-- The difference of two positions. -/
def checkedSub (a b : Nat) : Except Fault Nat :=
  if b ≤ a then .ok (a - b) else .error .negative

/-- The member of a list at a position. -/
def checkedGet {α : Type} (xs : List α) (position : Nat) : Except Fault α :=
  match xs[position]? with
  | some x => .ok x
  | none => .error .outside

/-- The dimension of a shape at a place of a result with the given rank, if the shape reaches up to
there. -/
def dimAt (shape : List Dim) (rank place : Nat) : Except Fault (Option Dim) :=
  if rank ≤ place + shape.length then do
    let position ← checkedSub (place + shape.length) rank
    return some (← checkedGet shape position)
  else return none

/-- The dimension at a place where two shapes have these dimensions. -/
def joinAt? : Option Dim → Option Dim → Option Dim
  | some a, none => some a
  | none, some b => some b
  | some a, some b => Dim.join? a b
  | none, none => none

/-- The dimensions of the result at the places, if all of them join. -/
def broadcastPlaces (lhs rhs : List Dim) (rank : Nat) : List Nat → Except Fault (Option (List Dim))
  | [] => return some []
  | place :: rest => do
    let joined := joinAt? (← dimAt lhs rank place) (← dimAt rhs rank place)
    let others ← broadcastPlaces lhs rhs rank rest
    return joined.bind fun d => others.map (d :: ·)

/-- Broadcast two shapes from the first place of the result to the last. -/
def broadcastLoop (lhs rhs : List Dim) : Except Fault (Option (List Dim)) :=
  broadcastPlaces lhs rhs (max lhs.length rhs.length) (List.range (max lhs.length rhs.length))

section Places

variable {lhs rhs : List Dim} {rank : Nat}

/-- A place of the result is inside of the shape or in front of it. -/
theorem dimAt_eq {shape : List Dim} {place : Nat} (hplace : place < rank) :
    dimAt shape rank place = .ok shape.reverse[rank - 1 - place]? := by
  unfold dimAt
  split_ifs with hinside
  · have hposition : place + shape.length - rank < shape.length := by omega
    have hreverse : shape.reverse[rank - 1 - place]? = shape[place + shape.length - rank]? := by
      rw [List.getElem?_reverse (by omega)]
      congr 1
      omega
    rw [checkedSub, if_pos hinside, hreverse, List.getElem?_eq_getElem hposition]
    change checkedGet shape (place + shape.length - rank) >>= _ = _
    rw [checkedGet, List.getElem?_eq_getElem hposition]
    rfl
  · rw [List.getElem?_eq_none (by rw [List.length_reverse]; omega)]
    rfl

theorem cons_map_eq_map_some_iff {α : Type} {x : Option α} {xs : List (Option α)} {ys : List α} :
    x :: xs = ys.map some ↔ ∃ y rest, x = some y ∧ xs = rest.map some ∧ y :: rest = ys := by
  rw [eq_comm, List.map_eq_cons_iff]
  constructor
  · rintro ⟨y, rest, rfl, rfl, rfl⟩
    exact ⟨y, rest, rfl, rfl, rfl⟩
  · rintro ⟨y, rest, rfl, rfl, rfl⟩
    exact ⟨y, rest, rfl, rfl, rfl⟩

/-- No position falls outside of a shape, and the places of the result are those where the shapes
join. -/
theorem exists_broadcastPlaces (lhs rhs : List Dim) {places : List Nat}
    (hplaces : ∀ place ∈ places, place < rank) :
    ∃ result, broadcastPlaces lhs rhs rank places = .ok result ∧ ∀ shape, result = some shape ↔
      (places.map fun place =>
        joinAt? lhs.reverse[rank - 1 - place]? rhs.reverse[rank - 1 - place]?) =
          shape.map some := by
  induction places with
  | nil => exact ⟨some [], rfl, by simp⟩
  | cons place rest ih =>
    rw [List.forall_mem_cons] at hplaces
    obtain ⟨others, hothers, hshape⟩ := ih hplaces.2
    rw [broadcastPlaces, dimAt_eq hplaces.1, dimAt_eq hplaces.1, hothers]
    refine ⟨_, rfl, fun shape => ?_⟩
    simp only [List.map_cons, cons_map_eq_map_some_iff, ← hshape, Option.bind_eq_some_iff,
      Option.map_eq_some_iff]
    constructor
    · rintro ⟨d, hjoin, later, hlater, rfl⟩
      exact ⟨d, later, hjoin, hlater, rfl⟩
    · rintro ⟨d, later, hjoin, hlater, rfl⟩
      exact ⟨d, hjoin, later, hlater, rfl⟩

theorem broadcastBack?_eq_some_iff {back : List Dim} :
    broadcastBack? lhs rhs = some back ↔ List.zipWithAll joinAt? lhs rhs = back.map some := by
  have hsome : ∀ {dims back : List Dim}, dims.map some = back.map some ↔ dims = back :=
    (List.map_injective_iff.2 (Option.some_injective Dim)).eq_iff
  induction lhs generalizing rhs back with
  | nil => simp [broadcastBack?, joinAt?, hsome]
  | cons a lhs ih =>
    cases rhs with
    | nil =>
      rw [List.zipWithAll_nil]
      simp only [joinAt?, hsome]
      simp [broadcastBack?]
    | cons b rhs =>
      simp only [broadcastBack?_cons_cons_eq_some_iff, List.zipWithAll_cons_cons,
        cons_map_eq_map_some_iff, joinAt?, ih]

theorem zipWithAll_joinAt?_eq (lhs rhs : List Dim) : List.zipWithAll joinAt? lhs rhs =
    (List.range (max lhs.length rhs.length)).map fun place => joinAt? lhs[place]? rhs[place]? := by
  refine List.ext_getElem? fun place => ?_
  rw [List.getElem?_zipWithAll, List.getElem?_map]
  by_cases hplace : place < max lhs.length rhs.length
  · rw [List.getElem?_range hplace]
    split
    · next hlhs hrhs =>
      rw [List.getElem?_eq_none_iff] at hlhs hrhs
      omega
    · rfl
  · rw [Nat.not_lt, max_le_iff] at hplace
    simp [hplace]

/-- Counted from the front, the places come in the opposite order. -/
theorem map_range_reverse {α : Type} (f : Nat → α) (n : Nat) :
    (List.range n).map (fun i => f (n - 1 - i)) = ((List.range n).map f).reverse := by
  have hrange : (List.range n).reverse = (List.range n).map (n - 1 - ·) := by
    rw [List.range_eq_range', List.reverse_range']
    simp [List.range_eq_range']
  rw [← List.map_reverse, hrange, List.map_map]
  rfl

theorem broadcastLoop_eq (lhs rhs : List Dim) :
    broadcastLoop lhs rhs = .ok (broadcast? lhs rhs) := by
  have hplaces : ∀ place ∈ List.range (max lhs.length rhs.length),
      place < max lhs.length rhs.length :=
    fun place => List.mem_range.1
  obtain ⟨result, hresult, hshape⟩ := exists_broadcastPlaces lhs rhs hplaces
  have hjoins := map_range_reverse (fun place => joinAt? lhs.reverse[place]? rhs.reverse[place]?)
    (max lhs.length rhs.length)
  have hback := zipWithAll_joinAt?_eq lhs.reverse rhs.reverse
  rw [List.length_reverse, List.length_reverse] at hback
  rw [broadcastLoop, hresult]
  refine congrArg _ (Option.ext fun shape => ?_)
  rw [hshape, hjoins, ← hback, List.reverse_eq_iff, ← List.map_reverse,
    ← broadcastBack?_eq_some_iff, broadcast?, Option.map_eq_some_iff]
  simp [List.reverse_eq_iff]

end Places

/-- Shapes broadcast exactly if all of their instances do by the rule for lengths. The result is
then the only shape whose instances are the shapes that the rule gives. Computed place by place, it
is found without a position outside of a shape. -/
theorem broadcast?_eq_some_iff_forall_lengths (lhs rhs : List Dim) :
    ((∃ shape, broadcast? lhs rhs = some shape) ↔
      ∀ lengths, Broadcastable (lhs.map (Dim.length lengths)) (rhs.map (Dim.length lengths))) ∧
    (∀ shape, broadcast? lhs rhs = some shape ↔
      ∀ lengths, Broadcastable (lhs.map (Dim.length lengths)) (rhs.map (Dim.length lengths)) ∧
        shape.map (Dim.length lengths) =
          stretchedShape (lhs.map (Dim.length lengths)) (rhs.map (Dim.length lengths))) ∧
    broadcastLoop lhs rhs = .ok (broadcast? lhs rhs) := by
  refine ⟨⟨?_, exists_broadcast?⟩, fun shape => ⟨broadcastable_of_broadcast?, fun h => ?_⟩,
    broadcastLoop_eq lhs rhs⟩
  · rintro ⟨shape, hshape⟩ lengths
    exact (broadcastable_of_broadcast? hshape lengths).1
  · obtain ⟨found, hfound⟩ := exists_broadcast? fun lengths => (h lengths).1
    rw [hfound, Dim.eq_of_forall_map_length fun lengths =>
      (broadcastable_of_broadcast? hfound lengths).2.trans (h lengths).2.symm]

end TensorGraph
