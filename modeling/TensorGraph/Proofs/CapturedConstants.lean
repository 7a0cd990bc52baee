import TensorGraph.Proofs.ConstantOrder
import TensorGraph.Proofs.WrittenText

/-!
# Captured constants in their order

A level lists the constants that it reads once each, and strictly in the order of names
(`Level.CapturesInOrder`). There is only one such list, so it does not matter in which order the
constants were found (`Level.CapturesInOrder.unique`). The order is a strict total one on all names
(`ordersNames_precedes`): a name that writes a number behind an underscore compares by its stem,
then by the number, whatever zeros or plus sign it is written with, and last by its text; any other
name is its own stem.
-/

namespace TensorGraph

/-! ## Keys of names -/

/-- The name has a stem and, behind an underscore, a text that writes a number below `2 ^ 64`. -/
def WritesNumber (name stem : String) (n : Nat) : Prop :=
  n < Nat.pow 2 64 ∧ ∃ suffix, Text.Writes n suffix ∧ name = stem ++ "_" ++ String.ofList suffix

/-- The stem of a name is what stands before the number that it writes, or the name itself if it
writes none. -/
def HasStem (name stem : String) : Prop :=
  (∃ n, WritesNumber name stem n) ∨ (∀ other n, ¬ WritesNumber name other n) ∧ name = stem

theorem writesNumber_numbered (base : String) {n : Nat} (h : n < Nat.pow 2 64) :
    WritesNumber (numbered base n) base n :=
  ⟨h, (toString n).toList, Text.writes_toString n, by rw [String.ofList_toList, numbered]⟩

namespace NameKey

variable {name stem : String} {n : Nat}

theorem ofName_of_writesNumber (h : WritesNumber name stem n) :
    ofName name = ⟨stem, some n, name⟩ := by
  obtain ⟨hlt, suffix, hwrites, rfl⟩ := h
  have hcut : Text.cutLast '_' (stem ++ "_" ++ String.ofList suffix).toList =
      some (stem.toList, suffix) :=
    Text.cutLast_eq_some_iff.2 ⟨by simp, hwrites.not_mem_underscore⟩
  have hread : Text.readNumeral? Text.wordMax suffix = some n :=
    Text.readNumeral?_eq_some_iff.2 ⟨Nat.le_of_lt_succ hlt, hwrites⟩
  rw [ofName, hcut]
  simp only [hread, String.ofList_toList]

/-- A name that writes no number is its own stem. -/
theorem ofName_of_forall_not (h : ∀ stem n, ¬ WritesNumber name stem n) :
    ofName name = ⟨name, none, name⟩ := by
  unfold ofName
  cases hcut : Text.cutLast '_' name.toList with
  | none => rfl
  | some parts =>
    obtain ⟨stem, suffix⟩ := parts
    cases hread : Text.readNumeral? Text.wordMax suffix with
    | none => simp only [hread]
    | some n =>
      -- A suffix that is read is one that writes the number.
      obtain ⟨hle, hwrites⟩ := Text.readNumeral?_eq_some_iff.1 hread
      refine absurd ⟨Nat.lt_succ_of_le hle, suffix, hwrites, ?_⟩ (h (String.ofList stem) n)
      rw [← String.toList_inj, (Text.cutLast_eq_some_iff.1 hcut).1]
      simp

theorem stem_ofName (h : HasStem name stem) : (ofName name).stem = stem := by
  rcases h with ⟨n, hwrites⟩ | ⟨hnone, rfl⟩
  · rw [ofName_of_writesNumber hwrites]
  · rw [ofName_of_forall_not hnone]

end NameKey

/-! ## The order -/

/-- The first name comes before the second one. -/
def Precedes (x y : String) : Prop :=
  (NameKey.ofName x).lt (NameKey.ofName y) = true

/-- A strict total order on names that counts up the numbers behind a stem. -/
structure OrdersNames (before : String → String → Prop) : Prop where
  irrefl : ∀ x, ¬ before x x
  trans : ∀ x y z, before x y → before y z → before x z
  total : ∀ x y, x ≠ y → before x y ∨ before y x
  /-- A base with a smaller number comes first. -/
  counts : ∀ base m n, m < n → n < Nat.pow 2 64 → before (numbered base m) (numbered base n)
  /-- Names with different stems compare by these. -/
  stem_iff : ∀ x y s t, HasStem x s → HasStem y t → s ≠ t → (before x y ↔ s < t)
  /-- Names with one stem compare by the numbers that they write, and by their texts where these are
  the same. -/
  number_iff : ∀ x y stem m n, WritesNumber x stem m → WritesNumber y stem n →
    (before x y ↔ m < n ∨ m = n ∧ x < y)
  /-- A stem that writes no number itself comes before all its numbers. -/
  stem_first : ∀ x y n, (∀ stem m, ¬ WritesNumber x stem m) → WritesNumber y x n → before x y

section

variable {x y z : String}

theorem precedes_iff : Precedes x y ↔ nameLe y x = false := by
  rw [Precedes, nameLe, Bool.not_eq_false']

theorem precedes_irrefl (x : String) : ¬ Precedes x x := by
  rw [precedes_iff, nameLe_refl]
  exact Bool.noConfusion

theorem nameLe_of_precedes (h : Precedes x y) : nameLe x y = true := by
  simpa [precedes_iff.1 h] using nameLe_total x y

theorem precedes_of_nameLe (h : nameLe x y = true) (hne : x ≠ y) : Precedes x y := by
  rw [precedes_iff, Bool.eq_false_iff]
  exact fun hge => hne (nameLe_antisymm h hge)

theorem precedes_trans (h : Precedes x y) (h' : Precedes y z) : Precedes x z := by
  refine precedes_of_nameLe (nameLe_trans (nameLe_of_precedes h) (nameLe_of_precedes h')) ?_
  rintro rfl
  rw [precedes_iff, nameLe_of_precedes h] at h'
  cases h'

/-- Names with one stem compare by their numbers first. -/
theorem precedes_iff_of_writesNumber {stem : String} {m n : Nat} (hx : WritesNumber x stem m)
    (hy : WritesNumber y stem n) :
    Precedes x y ↔ m < n ∨ m = n ∧ x < y := by
  rw [Precedes, NameKey.ofName_of_writesNumber hx, NameKey.ofName_of_writesNumber hy]
  by_cases hmn : m = n
  · simp [NameKey.lt, hmn]
  · simp [NameKey.lt, NameKey.numberLt, hmn]

example :
    ["w", "w_+2", "w_02", "w_2", "w_10", "w_x"].Pairwise fun x y =>
      (NameKey.ofName x).lt (NameKey.ofName y) := by
  decide +kernel

theorem precedes_iff_of_hasStem {s t : String} (hx : HasStem x s) (hy : HasStem y t) (hne : s ≠ t) :
    Precedes x y ↔ s < t := by
  rw [Precedes, NameKey.lt, NameKey.stem_ofName hx, NameKey.stem_ofName hy]
  simp [hne]

theorem precedes_of_writesNumber {n : Nat} (hx : ∀ stem m, ¬ WritesNumber x stem m)
    (hy : WritesNumber y x n) :
    Precedes x y := by
  rw [Precedes, NameKey.ofName_of_forall_not hx, NameKey.ofName_of_writesNumber hy]
  simp [NameKey.lt, NameKey.numberLt]

theorem ordersNames_precedes : OrdersNames Precedes where
  irrefl := precedes_irrefl
  trans _ _ _ := precedes_trans
  total x y hne := by
    have htotal := nameLe_total x y
    rw [Bool.or_eq_true] at htotal
    exact htotal.imp (fun h => precedes_of_nameLe h hne) fun h => precedes_of_nameLe h hne.symm
  counts base m n hmn hn := by
    have hm : m < Nat.pow 2 64 := Nat.lt_trans hmn hn
    exact (precedes_iff_of_writesNumber (writesNumber_numbered base hm)
      (writesNumber_numbered base hn)).2 (Or.inl hmn)
  stem_iff _ _ _ _ := precedes_iff_of_hasStem
  number_iff _ _ _ _ _ := precedes_iff_of_writesNumber
  stem_first _ _ _ := precedes_of_writesNumber

end

/-! ## Captured constants -/

/-- The constants that a level captures, each once and strictly in the order of names. -/
structure Level.CapturesInOrder (l : Level) (table : InitializerTable) (captured : List String) :
    Prop where
  nodup : captured.Nodup
  mem_iff : ∀ x, x ∈ captured ↔ x ∈ table.names ∧ ∃ n ∈ l.nodes, x ∈ n.inputs
  increasing : captured.Pairwise Precedes

namespace Level.CapturesInOrder

variable {l : Level} {table : InitializerTable} {captured captured' : List String}

/-- Lists that are strictly in order are the same if their members are. -/
theorem unique (h : l.CapturesInOrder table captured) (h' : l.CapturesInOrder table captured') :
    captured = captured' := by
  refine List.Perm.eq_of_pairwise (fun x y _ _ hxy hyx => ?_) h.increasing h'.increasing ?_
  · exact absurd (precedes_trans hxy hyx) (precedes_irrefl x)
  · exact (List.perm_ext_iff_of_nodup h.nodup h'.nodup).2 fun x =>
      (h.mem_iff x).trans (h'.mem_iff x).symm

/-- Sorting puts the constants in order, in whatever order they were found. -/
theorem mergeSort {found : List String} (hnodup : found.Nodup)
    (hmem : ∀ x, x ∈ found ↔ x ∈ table.names ∧ ∃ n ∈ l.nodes, x ∈ n.inputs) :
    l.CapturesInOrder table (found.mergeSort nameLe) where
  nodup := (List.mergeSort_perm found nameLe).nodup_iff.2 hnodup
  mem_iff x := List.mem_mergeSort.trans (hmem x)
  increasing := by
    have hsorted := List.pairwise_mergeSort (fun x y z => @nameLe_trans x y z) nameLe_total found
    have hdistinct : (found.mergeSort nameLe).Nodup :=
      (List.mergeSort_perm found nameLe).nodup_iff.2 hnodup
    exact (hsorted.and hdistinct).imp fun h => precedes_of_nameLe h.1 h.2

end Level.CapturesInOrder

theorem Level.capturesInOrder_referencedInitializers (l : Level) (table : InitializerTable) :
    l.CapturesInOrder table (l.referencedInitializers table) :=
  .mergeSort (nodup_eraseDups _) fun x => by
    simp [InitializerTable.contains_iff, and_comm]

/-- The constants that a level captures are listed once each and strictly in the order of names,
whatever order they were found in, and this order is a strict total one that counts up numbers. -/
theorem Level.referencedInitializers_canonical (l : Level) (table : InitializerTable) :
    l.CapturesInOrder table (l.referencedInitializers table) ∧
      (∀ found : List String, found.Nodup → (∀ x, x ∈ found ↔ x ∈ l.referencedInitializers table) →
        found.mergeSort nameLe = l.referencedInitializers table) ∧
      OrdersNames Precedes := by
  have hcaptures := l.capturesInOrder_referencedInitializers table
  refine ⟨hcaptures, fun found hnodup hmem => ?_, ordersNames_precedes⟩
  exact CapturesInOrder.unique (.mergeSort hnodup fun x => (hmem x).trans (hcaptures.mem_iff x))
    hcaptures

end TensorGraph
