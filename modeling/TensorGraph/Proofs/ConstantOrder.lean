import Mathlib.Data.List.Pairwise
import Mathlib.Data.List.Sort
import TensorGraph.Proofs.Implements
import TensorGraph.Proofs.RenamedLevels

/-!
# The order of constants

The constants that a level reads become parameters in the order of their names. So which parameter
stands at a place of a body depends on how the name that is read there compares with the others.
Reads of two levels that are in the same order at the same places (`OrderedAlike`) are exchanged by
a map that also exchanges the parameters (`referencedInitializers_eq_map`), and a map that exchanges
parameters keeps the order (`nameLe_eq_of_map`).
-/

namespace TensorGraph

/-! ## Names are in a linear order -/

namespace NameKey

section

variable {m n k : Option Nat}

theorem numberLt_asymm (h : numberLt m n = true) : numberLt n m = false := by
  cases m <;> cases n <;> grind [numberLt]

theorem eq_of_numberLt (h : numberLt m n = false) (h' : numberLt n m = false) : m = n := by
  cases m <;> cases n <;> grind [numberLt]

theorem numberLt_trans (h : numberLt m n = true) (h' : numberLt n k = true) :
    numberLt m k = true := by
  cases m <;> cases n <;> cases k <;> grind [numberLt]

end

variable {a b c : NameKey}

theorem lt_asymm (h : a.lt b = true) : b.lt a = false := by
  grind [lt, numberLt_asymm]

theorem name_eq_of_lt (h : a.lt b = false) (h' : b.lt a = false) : a.name = b.name := by
  grind [lt, eq_of_numberLt]

theorem lt_eq_false_trans (h : a.lt b = false) (h' : b.lt c = false) : a.lt c = false := by
  grind [lt, eq_of_numberLt, numberLt_asymm, numberLt_trans]

theorem name_ofName (x : String) : (ofName x).name = x := by
  grind [ofName]

end NameKey

section

variable {x y z : String}

theorem nameLe_total (x y : String) : (nameLe x y || nameLe y x) = true := by
  grind [nameLe, NameKey.lt_asymm]

theorem nameLe_refl (x : String) : nameLe x x = true := by
  simpa using nameLe_total x x

theorem nameLe_trans (h : nameLe x y = true) (h' : nameLe y z = true) : nameLe x z = true := by
  simp only [nameLe, Bool.not_eq_true'] at *
  exact NameKey.lt_eq_false_trans h' h

theorem nameLe_antisymm (h : nameLe x y = true) (h' : nameLe y x = true) : x = y := by
  simp only [nameLe, Bool.not_eq_true'] at *
  simpa only [NameKey.name_ofName] using NameKey.name_eq_of_lt h' h

theorem pairwise_referencedInitializers (l : Level) (table : InitializerTable) :
    (l.referencedInitializers table).Pairwise fun x y => nameLe x y = true := by
  rw [Level.referencedInitializers]
  exact List.pairwise_mergeSort (fun x y z => @nameLe_trans x y z) nameLe_total _

end

/-! ## Sorting by insertion -/

section

variable {α : Type} {le : α → α → Bool} {a : α}

theorem orderedInsert_append {before after : List α} (hbefore : ∀ b ∈ before, le a b = false)
    (hafter : ∀ b ∈ after, le a b = true) :
    (before ++ after).orderedInsert (fun x y => le x y = true) a = before ++ a :: after := by
  induction before with
  | nil =>
    cases after with
    | nil => rfl
    | cons b rest => simp [hafter b]
  | cons b rest ih => simp [hbefore b, ih fun c hc => hbefore c (by simp [hc])]

/-- A stable sort inserts the elements one by one. Unlike merging, this is a recursion on the
list. -/
theorem mergeSort_eq_insertionSort (htrans : ∀ a b c, le a b → le b c → le a c)
    (htotal : ∀ a b, le a b || le b a) (l : List α) :
    l.mergeSort le = l.insertionSort fun a b => le a b = true := by
  induction l with
  | nil => simp
  | cons a l ih =>
    obtain ⟨before, after, hsorted, hrest, hbefore⟩ := List.mergeSort_cons htrans htotal a l
    have hpairwise := hsorted ▸ List.pairwise_mergeSort htrans htotal (a :: l)
    have hafter := (List.pairwise_cons.1 (List.pairwise_append.1 hpairwise).2.1).1
    rw [List.insertionSort_cons, ← ih, hrest, hsorted,
      orderedInsert_append (by simpa using hbefore) hafter]

theorem referencedInitializers_eq_insertionSort (l : Level) (table : InitializerTable) :
    l.referencedInitializers table = (l.constantReads table).eraseDups.insertionSort fun x y =>
      nameLe x y = true := by
  rw [Level.referencedInitializers]
  exact mergeSort_eq_insertionSort (fun x y z => @nameLe_trans x y z) nameLe_total _

theorem mergeSort_eq_insertionSort_records (records : List (LocalName × ValueRecord)) :
    (records.mergeSort fun a b => a.1.le b.1) =
      records.insertionSort fun a b => a.1.le b.1 = true :=
  mergeSort_eq_insertionSort (fun a b c => @LocalName.le_trans a.1 b.1 c.1)
    (fun a b => LocalName.le_total a.1 b.1) records

end

/-! ## Names in the same order -/

/-- Names at the same places of two lists are in the same order. -/
def OrderedAlike (xs ys : List String) : Prop :=
  xs.length = ys.length ∧ ∀ p ∈ xs.zip ys, ∀ q ∈ xs.zip ys, nameLe p.1 q.1 = nameLe p.2 q.2

instance (xs ys : List String) : Decidable (OrderedAlike xs ys) :=
  inferInstanceAs (Decidable (_ ∧ _))

example :
    OrderedAlike ["const_1", "const_2", "const_1"] ["const_3", "const_12", "const_3"] := by
  decide +kernel
example : ¬ OrderedAlike ["const_1", "const_2"] ["const_3", "const_0"] := by decide +kernel

variable {xs ys : List String} {f : String → String}

/-- Names at places of one name are one name. -/
theorem OrderedAlike.snd_eq (h : OrderedAlike xs ys) {x y y' : String} (hy : (x, y) ∈ xs.zip ys)
    (hy' : (x, y') ∈ xs.zip ys) : y = y' := by
  have hle := h.2 _ hy _ hy'
  have hge := h.2 _ hy' _ hy
  rw [nameLe_refl] at hle hge
  exact nameLe_antisymm hle.symm hge.symm

/-- Lists in the same order are those that a map which keeps the order exchanges. -/
theorem orderedAlike_iff_exists_map : OrderedAlike xs ys ↔
    ∃ f : String → String, ys = xs.map f ∧ ∀ x ∈ xs, ∀ y ∈ xs, nameLe x y = nameLe (f x) (f y) := by
  constructor
  · intro h
    have hunique : ∀ x, ∃ y, ∀ z, (x, z) ∈ xs.zip ys → z = y := by
      intro x
      by_cases hx : ∃ y, (x, y) ∈ xs.zip ys
      · obtain ⟨y, hy⟩ := hx
        exact ⟨y, fun z hz => h.snd_eq hz hy⟩
      · exact ⟨x, fun z hz => absurd ⟨z, hz⟩ hx⟩
    choose f hf using hunique
    have hmap : ys = xs.map f := by
      calc ys = (xs.zip ys).map Prod.snd := (List.map_snd_zip (Nat.le_of_eq h.1.symm)).symm
        _ = (xs.zip ys).map (f ∘ Prod.fst) := List.map_congr_left fun p hp => hf p.1 p.2 hp
        _ = xs.map f := by rw [← List.map_map, List.map_fst_zip (Nat.le_of_eq h.1)]
    subst hmap
    have hmem : ∀ x ∈ xs, (x, f x) ∈ xs.zip (xs.map f) := fun x hx => by
      rw [← List.map_prod_left_eq_zip]
      exact List.mem_map_of_mem hx
    exact ⟨f, rfl, fun x hx y hy => h.2 (x, f x) (hmem x hx) (y, f y) (hmem y hy)⟩
  · rintro ⟨f, rfl, hf⟩
    refine ⟨(List.length_map f).symm, fun p hp q hq => ?_⟩
    rw [← List.map_prod_left_eq_zip] at hp hq
    obtain ⟨x, hx, rfl⟩ := List.mem_map.1 hp
    obtain ⟨y, hy, rfl⟩ := List.mem_map.1 hq
    exact hf x hx y hy

/-- A map that keeps the order is one to one. -/
theorem injOn_of_nameLe (hf : ∀ x ∈ xs, ∀ y ∈ xs, nameLe x y = nameLe (f x) (f y)) {x y : String}
    (hx : x ∈ xs) (hy : y ∈ xs) (hxy : f x = f y) : x = y := by
  refine nameLe_antisymm ?_ ?_
  · rw [hf x hx y hy, hxy, nameLe_refl]
  · rw [hf y hy x hx, hxy, nameLe_refl]

/-- A map that exchanges what two levels read of the constants, and keeps the order, exchanges their
parameters. -/
theorem referencedInitializers_eq_map {l l' : Level} {table table' : InitializerTable}
    (hreads : l'.constantReads table' = (l.constantReads table).map f)
    (hf : ∀ x ∈ l.constantReads table, ∀ y ∈ l.constantReads table,
      nameLe x y = nameLe (f x) (f y)) :
    l'.referencedInitializers table' = (l.referencedInitializers table).map f := by
  have hmem : ∀ x, x ∈ l.referencedInitializers table ↔ x ∈ l.constantReads table := fun x =>
    Level.mem_referencedInitializers.trans Level.mem_constantReads.symm
  have hmem' : ∀ x, x ∈ l'.referencedInitializers table' ↔ x ∈ (l.constantReads table).map f :=
    fun x =>
    Level.mem_referencedInitializers.trans (Level.mem_constantReads.symm.trans (by rw [hreads]))
  refine List.Perm.eq_of_pairwise (fun x y _ _ => nameLe_antisymm)
    (pairwise_referencedInitializers l' table') ?_ ?_
  · refine List.pairwise_map.2
      ((pairwise_referencedInitializers l table).imp_of_mem fun {x y} hx hy hxy => ?_)
    rwa [← hf x ((hmem x).1 hx) y ((hmem y).1 hy)]
  · have hnodup : ((l.referencedInitializers table).map f).Nodup :=
      (l.nodup_referencedInitializers table).map_on fun x hx y hy hxy =>
        injOn_of_nameLe hf ((hmem x).1 hx) ((hmem y).1 hy) hxy
    refine (List.perm_ext_iff_of_nodup (l'.nodup_referencedInitializers table') hnodup).2
      fun y => ?_
    simp only [hmem', List.mem_map, hmem]

/-- A one-to-one map between lists that are both in order keeps the order. -/
theorem nameLe_eq_of_map (hxs : xs.Pairwise fun x y => nameLe x y = true)
    (hys : (xs.map f).Pairwise fun x y => nameLe x y = true)
    (hf : ∀ x ∈ xs, ∀ y ∈ xs, f x = f y → x = y) {x y : String} (hx : x ∈ xs) (hy : y ∈ xs) :
    nameLe x y = nameLe (f x) (f y) := by
  by_cases hxy : x = y
  · rw [hxy, nameLe_refl, nameLe_refl]
  · let Sides (x y : String) : Prop := nameLe x y = true ∧ nameLe (f x) (f y) = true
    have : Std.Symm fun x y => Sides x y ∨ Sides y x := ⟨fun _ _ => Or.symm⟩
    have hsides : xs.Pairwise fun x y => Sides x y ∨ Sides y x :=
      (hxs.and (List.pairwise_map.1 hys)).imp Or.inl
    rcases hsides.forall hx hy hxy with ⟨hle, hle'⟩ | ⟨hge, hge'⟩
    · rw [hle, hle']
    · have hlt : nameLe x y = false := by
        rw [Bool.eq_false_iff]
        exact fun hle => hxy (nameLe_antisymm hle hge)
      have hlt' : nameLe (f x) (f y) = false := by
        rw [Bool.eq_false_iff]
        exact fun hle => hxy (hf x hx y hy (nameLe_antisymm hle hge'))
      rw [hlt, hlt']

end TensorGraph
