import Mathlib.Algebra.BigOperators.Group.List.Lemmas
import Mathlib.Algebra.BigOperators.Ring.List
import Mathlib.Algebra.GroupWithZero.Nat
import Mathlib.Algebra.Ring.Nat
import Mathlib.Data.List.Perm.Basic
import Mathlib.Data.List.TakeWhile
import TensorGraph.Tensor.Basic

/-!
# Sizes of tensors

The number of elements of a shape is multiplied up with every product held at the largest word, the
number of bytes with every product refused that is no word. The first is the product of the lengths,
held at the largest word, in every order of the lengths (`countOf_eq`). The second is exact only
where no zero undoes an overflow: what has to be a word is the product of the lengths before the
first zero (`leadingSize`, `byteLength?_eq`). So the order of the lengths decides whether an empty
tensor is refused (`forall_perm_leadingSize_iff`, `exists_perm_leadingSize_iff`).
-/

namespace TensorGraph

theorem DType.size_le_wordMax (dtype : DType) : dtype.size ≤ Text.wordMax := by
  cases dtype <;> decide

namespace Tensor

/-- The bytes of a shape, as an exact product. -/
def exactSize (dims : List Nat) (dtype : DType) : Nat :=
  dtype.size * dims.prod

/-- The bytes that the lengths before the first zero ask for. -/
def leadingSize (dims : List Nat) (dtype : DType) : Nat :=
  exactSize (dims.takeWhile (· != 0)) dtype

/-- The bytes that all lengths but the zeros ask for. -/
def nonzeroSize (dims : List Nat) (dtype : DType) : Nat :=
  exactSize (dims.filter (· != 0)) dtype

/-! ## The number of elements -/

/-- Holding a factor at a bound does not change a product that is held there. -/
theorem min_min_mul (a b bound : Nat) : min (min a bound * b) bound = min (a * b) bound := by
  rcases Nat.eq_zero_or_pos b with rfl | hb
  · simp
  · rcases Nat.le_total a bound with ha | ha
    · rw [Nat.min_eq_left ha]
    · have hle : bound ≤ bound * b := Nat.le_mul_of_pos_right bound hb
      rw [Nat.min_eq_right ha, Nat.min_eq_right hle,
        Nat.min_eq_right (hle.trans (Nat.mul_le_mul_right b ha))]

theorem foldl_min_eq (dims : List Nat) {count : Nat} (h : count ≤ Text.wordMax) :
    dims.foldl (fun count d => min (count * d) Text.wordMax) count =
      min (count * dims.prod) Text.wordMax := by
  induction dims generalizing count with
  | nil => simp [h]
  | cons d rest ih =>
    rw [List.foldl_cons, ih (Nat.min_le_right _ _), min_min_mul, List.prod_cons, Nat.mul_assoc]

/-- The number of elements is the product of the lengths, held at the largest word. -/
theorem countOf_eq (dims : List Nat) : countOf dims = min dims.prod Text.wordMax := by
  rw [countOf, foldl_min_eq dims (by decide), Nat.one_mul]

/-! ## The number of bytes -/

section

variable {dims dims' : List Nat} {dtype : DType}

theorem foldlM_eq (dims : List Nat) {size : Nat} (h : size ≤ Text.wordMax) :
    dims.foldlM (fun size d => if size * d ≤ Text.wordMax then some (size * d) else none) size =
      if size * (dims.takeWhile (· != 0)).prod ≤ Text.wordMax then some (size * dims.prod)
        else none := by
  induction dims generalizing size with
  | nil => simp [h]
  | cons d rest ih =>
    rw [List.foldlM_cons, List.prod_cons, ← Nat.mul_assoc]
    rcases Nat.eq_zero_or_pos d with rfl | hd
    · -- From a zero on every product is zero, whatever follows.
      simp [ih (Nat.zero_le _), h]
    · rw [List.takeWhile_cons_of_pos (by simpa using hd.ne'), List.prod_cons, ← Nat.mul_assoc]
      by_cases hword : size * d ≤ Text.wordMax
      · rw [if_pos hword, Option.bind_eq_bind, Option.bind_some, ih hword]
      · have hrest : 0 < (rest.takeWhile (· != 0)).prod :=
          Nat.pos_of_ne_zero (List.prod_ne_zero fun hzero =>
            by simpa using List.mem_takeWhile_imp hzero)
        rw [if_neg hword, if_neg fun hle => hword ((Nat.le_mul_of_pos_right _ hrest).trans hle)]
        rfl

/-- There is a size exactly if the lengths before the first zero have one, and it is the exact
one. -/
theorem byteLength?_eq (dims : List Nat) (dtype : DType) :
    byteLength? dims dtype = if leadingSize dims dtype ≤ Text.wordMax
      then some (exactSize dims dtype) else none :=
  foldlM_eq dims dtype.size_le_wordMax

theorem leadingSize_eq_exactSize (h : 0 ∉ dims) :
    leadingSize dims dtype = exactSize dims dtype := by
  have hall : ∀ d ∈ dims, (d != 0) = true := fun d hd => by simpa using ne_of_mem_of_not_mem hd h
  rw [leadingSize, List.takeWhile_eq_self_iff.2 hall]

theorem exactSize_eq_zero (h : 0 ∈ dims) : exactSize dims dtype = 0 := by
  rw [exactSize, List.prod_eq_zero h, Nat.mul_zero]

/-- The product of the lengths is at most what the lengths before the first zero ask for. -/
theorem exactSize_le_leadingSize : exactSize dims dtype ≤ leadingSize dims dtype := by
  by_cases hzero : 0 ∈ dims
  · rw [exactSize_eq_zero hzero]
    exact Nat.zero_le _
  · rw [leadingSize_eq_exactSize hzero]

theorem leadingSize_le_nonzeroSize : leadingSize dims dtype ≤ nonzeroSize dims dtype := by
  have hsublist : (dims.takeWhile (· != 0)).Sublist (dims.filter (· != 0)) := by
    have hkept := (List.takeWhile_sublist (p := (· != 0)) (l := dims)).filter (· != 0)
    rwa [List.filter_eq_self.2 fun d hd => List.mem_takeWhile_imp (p := (· != 0)) hd] at hkept
  have hpos : 0 < (dims.filter (· != 0)).prod :=
    Nat.pos_of_ne_zero (List.prod_ne_zero fun hzero => by simpa using (List.mem_filter.1 hzero).2)
  exact Nat.mul_le_mul_left _ (Nat.le_of_dvd hpos hsublist.prod_dvd_prod)

/-! ## Orders of the lengths -/

theorem exactSize_eq_of_perm (h : dims'.Perm dims) :
    exactSize dims' dtype = exactSize dims dtype := by
  rw [exactSize, exactSize, h.prod_eq]

/-- With the zeros at the end the check sees all other lengths. -/
theorem exists_perm_leadingSize_eq (dims : List Nat) (dtype : DType) :
    ∃ dims', dims'.Perm dims ∧ leadingSize dims' dtype = nonzeroSize dims dtype := by
  refine ⟨dims.filter (· != 0) ++ dims.filter (fun d => !(d != 0)), List.filter_append_perm _ _, ?_⟩
  rw [leadingSize, List.takeWhile_append_of_pos fun d hd => (List.mem_filter.1 hd).2]
  have hnil : (dims.filter fun d => !(d != 0)).takeWhile (· != 0) = [] := by
    rw [List.takeWhile_eq_nil_iff]
    intro hlt
    simpa using (List.mem_filter.1 (List.getElem_mem hlt)).2
  rw [hnil, List.append_nil, nonzeroSize]

/-- The size passes in every order of the lengths exactly if all lengths but the zeros ask for no
more than a bound. -/
theorem forall_perm_leadingSize_iff {bound : Nat} :
    (∀ dims', dims'.Perm dims → leadingSize dims' dtype ≤ bound) ↔
      nonzeroSize dims dtype ≤ bound := by
  constructor
  · intro h
    obtain ⟨dims', hperm, hsize⟩ := exists_perm_leadingSize_eq dims dtype
    exact hsize ▸ h dims' hperm
  · intro h dims' hperm
    have hnonzero : nonzeroSize dims' dtype = nonzeroSize dims dtype :=
      exactSize_eq_of_perm (hperm.filter _)
    exact leadingSize_le_nonzeroSize.trans (hnonzero ▸ h)

/-- The size passes in some order exactly if the exact product does. -/
theorem exists_perm_leadingSize_iff {bound : Nat} (hbound : dtype.size ≤ bound) :
    (∃ dims', dims'.Perm dims ∧ leadingSize dims' dtype ≤ bound) ↔
      exactSize dims dtype ≤ bound := by
  constructor
  · rintro ⟨dims', hperm, hle⟩
    exact exactSize_eq_of_perm hperm ▸ exactSize_le_leadingSize.trans hle
  · intro hle
    by_cases hzero : 0 ∈ dims
    · -- A zero in front leaves nothing to check but the size of an element.
      refine ⟨0 :: dims.erase 0, (List.perm_cons_erase hzero).symm, ?_⟩
      simpa [leadingSize, exactSize] using hbound
    · exact ⟨dims, .refl dims, leadingSize_eq_exactSize hzero ▸ hle⟩

end

/-! ## Filling a tensor -/

theorem le_wordMax_iff {n : Nat} : n ≤ Text.wordMax ↔ n < Nat.pow 2 64 :=
  Nat.lt_succ_iff.symm

theorem le_heldMax_iff {n : Nat} : n ≤ heldMax ↔ n < Nat.pow 2 63 :=
  Nat.lt_succ_iff.symm

section

variable {dims : List Nat} {dtype : DType}

/-- Where the size is a word, so is the number of elements. -/
theorem countOf_eq_prod (h : leadingSize dims dtype ≤ Text.wordMax) : countOf dims = dims.prod := by
  have hprod : dims.prod ≤ exactSize dims dtype := Nat.le_mul_of_pos_left _ dtype.size_pos
  rw [countOf_eq, Nat.min_eq_left (hprod.trans (exactSize_le_leadingSize.trans h))]

theorem tryFilled_eq (dims : List Nat) (dtype : DType) (value : Binary64) :
    tryFilled dims dtype value =
      if leadingSize dims dtype < Nat.pow 2 64 then
        .ok (if exactSize dims dtype < Nat.pow 2 63 then some (filled dims dtype value) else none)
      else .error (.trace
        ("a " ++ dtype.name ++ " tensor of shape " ++ dimsText dims ++
          " is too large to materialize")) := by
  rw [tryFilled, byteLength?_eq]
  by_cases hword : leadingSize dims dtype ≤ Text.wordMax
  · have hsize : countOf dims * dtype.size = exactSize dims dtype := by
      rw [countOf_eq_prod hword, exactSize, Nat.mul_comm]
    rw [if_pos hword, if_pos (le_wordMax_iff.1 hword), filled?, hsize]
    simp only [le_heldMax_iff]
  · rw [if_neg hword, if_neg fun hlt => hword (le_wordMax_iff.2 hlt)]

end

/-- What an attempt to fill a tensor comes to. -/
structure SizeChecked (dims : List Nat) (dtype : DType) (value : Binary64) : Prop where
  /-- It is refused exactly if the lengths before the first zero ask for more bytes than a word can
  count. -/
  refused_iff : ∀ e, tryFilled dims dtype value = .error e ↔ Nat.pow 2 64 ≤ leadingSize dims dtype ∧
    e = .trace ("a " ++ dtype.name ++ " tensor of shape " ++ dimsText dims ++
      " is too large to materialize")
  /-- It passes the check and is not held exactly if its bytes are a word that is too large for one
  piece. -/
  unheld_iff : tryFilled dims dtype value = .ok none ↔
    leadingSize dims dtype < Nat.pow 2 64 ∧ Nat.pow 2 63 ≤ exactSize dims dtype
  /-- Otherwise there is a tensor. -/
  filled_iff : (∃ t, tryFilled dims dtype value = .ok (some t)) ↔
    leadingSize dims dtype < Nat.pow 2 64 ∧ exactSize dims dtype < Nat.pow 2 63
  /-- The tensor holds as many elements as the shape has, in as many bytes as they take. -/
  contents : ∀ t, tryFilled dims dtype value = .ok (some t) → t.dtype = dtype ∧ t.dims = dims ∧
    t.raw = (List.replicate dims.prod (dtype.encode value)).flatten ∧
    t.raw.length = exactSize dims dtype ∧ t.elementCount = dims.prod
  /-- A shape without a zero is checked by its exact size. -/
  exact : 0 ∉ dims → leadingSize dims dtype = exactSize dims dtype
  /-- The check passes in every order of the lengths exactly if all of them but the zeros ask for a
  word. -/
  every_order_iff : (∀ dims', dims'.Perm dims → ∃ r, tryFilled dims' dtype value = .ok r) ↔
    nonzeroSize dims dtype < Nat.pow 2 64
  /-- It passes in some order exactly if the exact size is a word. -/
  some_order_iff : (∃ dims', dims'.Perm dims ∧ ∃ r, tryFilled dims' dtype value = .ok r) ↔
    exactSize dims dtype < Nat.pow 2 64
  /-- The number of elements is exact up to the largest word, whether the size passes the check or
  not. -/
  count : countOf dims = min dims.prod (Nat.pow 2 64 - 1)

/-- The size of a tensor is checked on the lengths before the first zero, and a tensor that passes
has exactly the bytes and elements of its shape. -/
theorem sizeChecked_tryFilled (dims : List Nat) (dtype : DType) (value : Binary64) :
    SizeChecked dims dtype value := by
  have hpasses : ∀ dims', (∃ r, tryFilled dims' dtype value = .ok r) ↔
      leadingSize dims' dtype ≤ Text.wordMax := by
    intro dims'
    rw [tryFilled_eq, le_wordMax_iff]
    split <;> simp [*]
  constructor
  case refused_iff =>
    intro e
    rw [tryFilled_eq, ← Nat.not_lt]
    split <;> simp [*, eq_comm]
  case unheld_iff =>
    rw [tryFilled_eq, ← Nat.not_lt]
    split <;> simp [*]
  case filled_iff =>
    rw [tryFilled_eq]
    split
    · split <;> simp [*]
    · simp [*]
  case contents =>
    intro t ht
    have hcount := countOf_eq_prod ((hpasses dims).1 ⟨_, ht⟩)
    obtain rfl : filled dims dtype value = t := by
      rw [tryFilled_eq] at ht
      split_ifs at ht with hword hheld
      · simpa using ht
      · simp at ht
    have hlength : (filled dims dtype value).raw.length = exactSize dims dtype := by
      rw [length_raw_filled, hcount, exactSize, Nat.mul_comm]
    refine ⟨rfl, rfl, by rw [filled, hcount], hlength, ?_⟩
    rw [elementCount, hlength]
    exact Nat.mul_div_cancel_left _ dtype.size_pos
  case exact => exact leadingSize_eq_exactSize
  case every_order_iff =>
    simp only [hpasses]
    rw [forall_perm_leadingSize_iff, le_wordMax_iff]
  case some_order_iff =>
    simp only [hpasses]
    rw [exists_perm_leadingSize_iff dtype.size_le_wordMax, le_wordMax_iff]
  case count => exact countOf_eq dims

/-- Lengths whose product is zero and whose other product is no word are refused with the zero at
the end and filled with the zero in front. -/
theorem sizeChecked_tryFilled_zeroLast :
    (∃ e, tryFilled [Nat.pow 2 40, Nat.pow 2 40, 0] .f64 .one = .error e) ∧
      tryFilled [0, Nat.pow 2 40, Nat.pow 2 40] .f64 .one =
        .ok (some ⟨.f64, [0, Nat.pow 2 40, Nat.pow 2 40], []⟩) := by
  refine ⟨⟨_, ((sizeChecked_tryFilled _ _ _).refused_iff _).2 ⟨by decide, rfl⟩⟩, ?_⟩
  obtain ⟨t, ht⟩ :=
    (sizeChecked_tryFilled [0, Nat.pow 2 40, Nat.pow 2 40] .f64 .one).filled_iff.2 (by decide)
  obtain ⟨hdtype, hdims, hraw, -⟩ := (sizeChecked_tryFilled _ _ _).contents t ht
  rw [ht]
  obtain ⟨dtype, dims, raw⟩ := t
  cases hdtype
  cases hdims
  cases hraw
  rfl

end Tensor

end TensorGraph
