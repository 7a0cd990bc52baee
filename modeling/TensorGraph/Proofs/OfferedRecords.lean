import TensorGraph.Proofs.FailedSteps

/-!
# Records offered one after another

A name may be offered many records before its level is frozen, and each offer is weighed only
against the record that stands at that moment. The outcome of a whole sequence is a property of the
sequence. It is accepted exactly when the pinned offers agree with each other and so do the offers
before the first pinned one (`Compatible`): an unpinned offer after a pinned one is never refused.
What stands in the end is the first offer of the most trusted provenance that was offered (`best?`).

The running record forgets which offers it has seen, so the sequence is followed by merging its
first two offers into the one that stands after them: this keeps `Compatible`
(`compatible_cons_cons`) and what the sequence settles on (`Settles.merge`). Both the order in which
the provenances are trusted and the pinned ones are written out here, and compared with
`Provenance.confidence` and `Provenance.isPinned` once each.
-/

namespace TensorGraph

/-- The provenances from the most trusted one on. -/
def Provenance.ranking : List Provenance :=
  [.declared, .repaired, .recovered, .subgraph]

namespace Info

/-- The record that says this of a name. -/
def record (i : Info) (name : String) : ValueRecord :=
  ⟨name, i.shape, i.dtype, i.provenance⟩

/-- Two offers give the same shape and element type. -/
def Agrees (i j : Info) : Prop :=
  i.shape = j.shape ∧ i.dtype = j.dtype

/-- Declared and repaired offers are pinned. -/
def Pinned (i : Info) : Prop :=
  i.provenance = .declared ∨ i.provenance = .repaired

instance (i j : Info) : Decidable (i.Agrees j) :=
  inferInstanceAs (Decidable (_ ∧ _))

instance (i : Info) : Decidable i.Pinned :=
  inferInstanceAs (Decidable (_ ∨ _))

/-- The offers before the first pinned one. -/
def beforePinned (offers : List Info) : List Info :=
  offers.takeWhile fun i => ¬i.Pinned

/-- The offers that can be made in this order without a conflict. -/
structure Compatible (offers : List Info) : Prop where
  pinned : ∀ i ∈ offers, ∀ j ∈ offers, i.Pinned → j.Pinned → i.Agrees j
  unpinned : ∀ i ∈ beforePinned offers, ∀ j ∈ beforePinned offers, i.Agrees j

instance (offers : List Info) : Decidable (Compatible offers) :=
  decidable_of_iff ((∀ i ∈ offers, ∀ j ∈ offers, i.Pinned → j.Pinned → i.Agrees j) ∧
    ∀ i ∈ beforePinned offers, ∀ j ∈ beforePinned offers, i.Agrees j)
      ⟨fun h => ⟨h.1, h.2⟩, fun h => ⟨h.1, h.2⟩⟩

/-- The first offer of the most trusted provenance that is offered. -/
def best? (offers : List Info) : Option Info :=
  Provenance.ranking.findSome? fun p => offers.find? fun i => i.provenance = p

/-! ## Pinned and trusted provenances -/

theorem pinned_iff {i : Info} : i.Pinned ↔ i.provenance.isPinned = true := by
  unfold Pinned
  cases i.provenance <;> decide

theorem confidence_lt_of_pinned {i j : Info} (hi : i.Pinned) (hj : ¬j.Pinned) :
    j.provenance.confidence < i.provenance.confidence := by
  unfold Pinned at hi hj
  revert hi hj
  cases i.provenance <;> cases j.provenance <;> decide

theorem provenance_eq_of_confidence_eq {p q : Provenance} (h : p.confidence = q.confidence) :
    p = q := by
  revert h
  cases p <;> cases q <;> decide

theorem mem_ranking (p : Provenance) : p ∈ Provenance.ranking := by
  cases p <;> decide

/-- A more trusted provenance stands earlier in the ranking. -/
theorem confidence_le_of_ranking {before after : List Provenance} {p q : Provenance}
    (h : Provenance.ranking = before ++ p :: after) (hq : q ∉ before) :
    q.confidence ≤ p.confidence := by
  have hsorted : Provenance.ranking.Pairwise fun p q => q.confidence ≤ p.confidence := by decide
  have hmem := mem_ranking q
  rw [h] at hsorted hmem
  rcases List.mem_append.1 hmem with hq' | hq'
  · exact absurd hq' hq
  · rcases List.mem_cons.1 hq' with rfl | hq'
    · exact Nat.le_refl _
    · exact (List.pairwise_cons.1 (List.pairwise_append.1 hsorted).2.1).1 q hq'

/-! ## Agreement -/

theorem Agrees.refl (i : Info) : i.Agrees i :=
  ⟨rfl, rfl⟩

theorem Agrees.symm {i j : Info} (h : i.Agrees j) : j.Agrees i :=
  ⟨h.1.symm, h.2.symm⟩

theorem Agrees.trans {i j k : Info} (h : i.Agrees j) (h' : j.Agrees k) : i.Agrees k :=
  ⟨h.1.trans h'.1, h.2.trans h'.2⟩

theorem Agrees.eq_of_provenance {i j : Info} (h : i.Agrees j) (hp : i.provenance = j.provenance) :
    i = j := by
  obtain ⟨shape, dtype, provenance⟩ := i
  obtain ⟨rfl, rfl⟩ := h
  cases hp
  rfl

/-! ## Compatible sequences -/

theorem beforePinned_cons_of_pinned {i : Info} (hi : i.Pinned) (rest : List Info) :
    beforePinned (i :: rest) = [] := by
  simp [beforePinned, hi]

theorem beforePinned_cons_of_not_pinned {i : Info} (hi : ¬i.Pinned) (rest : List Info) :
    beforePinned (i :: rest) = i :: beforePinned rest := by
  simp [beforePinned, hi]

theorem compatible_nil : Compatible [] :=
  ⟨by simp, by simp [beforePinned]⟩

/-- After a pinned offer only the pinned ones have to agree with it. -/
theorem compatible_cons_of_pinned {i : Info} {rest : List Info} (hi : i.Pinned) :
    Compatible (i :: rest) ↔ ∀ j ∈ rest, j.Pinned → i.Agrees j := by
  constructor
  · intro h j hj hpin
    exact h.pinned i List.mem_cons_self j (List.mem_cons_of_mem i hj) hi hpin
  · intro h
    have hall : ∀ j ∈ i :: rest, j.Pinned → i.Agrees j := by
      rintro j hj hpin
      rcases List.mem_cons.1 hj with rfl | hj
      · exact Agrees.refl j
      · exact h j hj hpin
    refine ⟨fun j hj k hk hjp hkp => (hall j hj hjp).symm.trans (hall k hk hkp), ?_⟩
    simp [beforePinned_cons_of_pinned hi]

/-- Offers before the first pinned one have to agree with an unpinned one before them, and pinned
ones with each other. -/
theorem compatible_cons_of_not_pinned {i : Info} {rest : List Info} (hi : ¬i.Pinned) :
    Compatible (i :: rest) ↔ (∀ j ∈ beforePinned rest, i.Agrees j) ∧
      ∀ j ∈ rest, ∀ k ∈ rest, j.Pinned → k.Pinned → j.Agrees k := by
  constructor
  · intro h
    have hun := h.unpinned
    rw [beforePinned_cons_of_not_pinned hi] at hun
    exact ⟨fun j hj => hun i List.mem_cons_self j (List.mem_cons_of_mem i hj),
      fun j hj k hk => h.pinned j (List.mem_cons_of_mem i hj) k (List.mem_cons_of_mem i hk)⟩
  · rintro ⟨hun, hpin⟩
    have hall : ∀ j ∈ i :: beforePinned rest, i.Agrees j := by
      intro j hj
      rcases List.mem_cons.1 hj with rfl | hj
      · exact Agrees.refl j
      · exact hun j hj
    constructor
    · intro j hj k hk hjp hkp
      have hne : ∀ m : Info, m.Pinned → m ∈ i :: rest → m ∈ rest := by
        intro m hm hmem
        rcases List.mem_cons.1 hmem with rfl | hmem
        · exact absurd hm hi
        · exact hmem
      exact hpin j (hne j hjp hj) k (hne k hkp hk) hjp hkp
    · rw [beforePinned_cons_of_not_pinned hi]
      exact fun j hj k hk => (hall j hj).symm.trans (hall k hk)

/-- Only the type of the first offer matters, and whether it is pinned. -/
theorem Compatible.replace {i j : Info} {rest : List Info} (hp : i.Pinned ↔ j.Pinned)
    (ha : i.Agrees j) (h : Compatible (i :: rest)) : Compatible (j :: rest) := by
  by_cases hi : i.Pinned
  · rw [compatible_cons_of_pinned hi] at h
    rw [compatible_cons_of_pinned (hp.1 hi)]
    exact fun k hk hkp => ha.symm.trans (h k hk hkp)
  · rw [compatible_cons_of_not_pinned hi] at h
    rw [compatible_cons_of_not_pinned fun hj => hi (hp.2 hj)]
    exact ⟨fun k hk => ha.symm.trans (h.1 k hk), h.2⟩

/-- A second offer that is pinned like the first one has to agree with it, and then it changes
nothing. -/
theorem compatible_cons_cons_of_iff {i o : Info} {rest : List Info} (hp : i.Pinned ↔ o.Pinned) :
    Compatible (i :: o :: rest) ↔ i.Agrees o ∧ Compatible (i :: rest) := by
  by_cases hi : i.Pinned
  · rw [compatible_cons_of_pinned hi, compatible_cons_of_pinned hi, List.forall_mem_cons]
    exact and_congr_left fun _ => ⟨fun h => h (hp.1 hi), fun h _ => h⟩
  · have ho : ¬o.Pinned := fun ho => hi (hp.2 ho)
    rw [compatible_cons_of_not_pinned hi, compatible_cons_of_not_pinned hi,
      beforePinned_cons_of_not_pinned ho, List.forall_mem_cons, and_assoc]
    refine and_congr_right fun _ => and_congr_right fun _ => ?_
    simp [ho]

/-! ## One offer -/

/-- Where both are pinned or neither is, an offer has to agree, and the more trusted one stands. -/
theorem offer?_of_iff {i o : Info} (hp : i.Pinned ↔ o.Pinned) :
    offer? (some i) o = if i.Agrees o then
      some (if i.provenance.confidence < o.provenance.confidence then o else i) else none := by
  rw [pinned_iff, pinned_iff, ← Bool.eq_iff_iff] at hp
  unfold offer? Agrees
  dsimp only
  rw [hp]
  cases o.provenance.isPinned <;> rfl

theorem offer?_of_pinned {i o : Info} (hi : i.Pinned) (ho : ¬o.Pinned) :
    offer? (some i) o = some i := by
  have hconf := confidence_lt_of_pinned hi ho
  rw [pinned_iff] at hi ho
  rw [Bool.not_eq_true] at ho
  simp [offer?, hi, ho, Nat.not_lt_of_lt hconf]

theorem offer?_of_not_pinned {i o : Info} (hi : ¬i.Pinned) (ho : o.Pinned) :
    offer? (some i) o = some o := by
  have hconf := confidence_lt_of_pinned ho hi
  rw [pinned_iff] at hi ho
  rw [Bool.not_eq_true] at hi
  simp [offer?, hi, ho, hconf]

/-- The offer that stands after two is one of them, it is trusted no less than either, and it is the
other one too if they have one provenance. -/
theorem of_offer? {i o j : Info} (h : offer? (some i) o = some j) :
    (j = i ∨ j = o) ∧ i.provenance.confidence ≤ j.provenance.confidence ∧
      o.provenance.confidence ≤ j.provenance.confidence ∧
      (i.provenance = o.provenance → i = o) := by
  by_cases hp : i.Pinned ↔ o.Pinned
  · rw [offer?_of_iff hp, Option.ite_none_right_eq_some, Option.some.injEq] at h
    obtain ⟨hag, rfl⟩ := h
    by_cases hconf : i.provenance.confidence < o.provenance.confidence
    · rw [if_pos hconf]
      exact ⟨Or.inr rfl, Nat.le_of_lt hconf, Nat.le_refl _, hag.eq_of_provenance⟩
    · rw [if_neg hconf]
      exact ⟨Or.inl rfl, Nat.le_refl _, Nat.le_of_not_lt hconf, hag.eq_of_provenance⟩
  · have hprov : i.provenance = o.provenance → i = o :=
      fun hprov => absurd (by rw [Pinned, Pinned, hprov]) hp
    by_cases hi : i.Pinned
    · have ho : ¬o.Pinned := fun ho => hp (iff_of_true hi ho)
      obtain rfl : i = j := by simpa [offer?_of_pinned hi ho] using h
      exact ⟨Or.inl rfl, Nat.le_refl _, Nat.le_of_lt (confidence_lt_of_pinned hi ho), hprov⟩
    · have ho : o.Pinned := Decidable.byContradiction fun ho => hp (iff_of_false hi ho)
      obtain rfl : o = j := by simpa [offer?_of_not_pinned hi ho] using h
      exact ⟨Or.inr rfl, Nat.le_of_lt (confidence_lt_of_pinned ho hi), Nat.le_refl _, hprov⟩

/-- Merging the first two offers into the one that stands after them keeps a sequence compatible or
not. -/
theorem compatible_cons_cons {i o : Info} {rest : List Info} :
    Compatible (i :: o :: rest) ↔ ∃ j, offer? (some i) o = some j ∧ Compatible (j :: rest) := by
  by_cases hp : i.Pinned ↔ o.Pinned
  · rw [compatible_cons_cons_of_iff hp, offer?_of_iff hp]
    by_cases hag : i.Agrees o
    · simp only [hag, true_and, if_true, Option.some.injEq, exists_eq_left']
      split
      · exact ⟨Compatible.replace hp hag, Compatible.replace hp.symm hag.symm⟩
      · rfl
    · simp [hag]
  · by_cases hi : i.Pinned
    · have ho : ¬o.Pinned := fun ho => hp (iff_of_true hi ho)
      rw [compatible_cons_of_pinned hi, List.forall_mem_cons, offer?_of_pinned hi ho]
      simp [ho, compatible_cons_of_pinned hi]
    · have ho : o.Pinned := Decidable.byContradiction fun ho => hp (iff_of_false hi ho)
      rw [compatible_cons_of_not_pinned hi, beforePinned_cons_of_pinned ho,
        offer?_of_not_pinned hi ho]
      simp only [List.not_mem_nil, false_imp_iff, implies_true, true_and, Option.some.injEq,
        exists_eq_left']
      -- Nothing before the pinned offer is compared with anything after it.
      exact ⟨fun h => ⟨h, by simp [beforePinned_cons_of_pinned ho]⟩, Compatible.pinned⟩

/-! ## Whole sequences -/

/-- What stands after a sequence of offers, unless one of them conflicts. -/
def settle? (existing : Option Info) : List Info → Option (Option Info)
  | [] => some existing
  | o :: rest => (offer? existing o).bind fun j => settle? (some j) rest

/-- The offer is of the most trusted provenance offered, and no other one of that provenance differs
from it. -/
structure Settles (offers : List Info) (final : Info) : Prop where
  offered : final ∈ offers
  trusted : ∀ i ∈ offers, i.provenance.confidence ≤ final.provenance.confidence
  unique : ∀ i ∈ offers, i.provenance = final.provenance → i = final

/-- A sequence settles on what it settles on when its first two offers are merged. -/
theorem Settles.merge {i o j final : Info} {rest : List Info} (hoffer : offer? (some i) o = some j)
    (h : Settles (j :: rest) final) : Settles (i :: o :: rest) final := by
  obtain ⟨hj, hij, hoj, hsame⟩ := of_offer? hoffer
  have hjfinal := h.trusted j List.mem_cons_self
  have hrest : ∀ k ∈ rest, k ∈ j :: rest := fun k hk => List.mem_cons_of_mem j hk
  -- An offer trusted no more than the one that stands has the final provenance only together with
  -- it.
  have hstands : ∀ k : Info, k.provenance.confidence ≤ j.provenance.confidence →
      k.provenance = final.provenance →
      j = final := fun k hk hprov =>
    h.unique j List.mem_cons_self
      (provenance_eq_of_confidence_eq (Nat.le_antisymm hjfinal (hprov ▸ hk)))
  refine ⟨?_, ?_, ?_⟩
  · rcases List.mem_cons.1 h.offered with rfl | hmem
    · rcases hj with rfl | rfl <;> simp
    · simp [hmem]
  · simp only [List.forall_mem_cons]
    exact ⟨Nat.le_trans hij hjfinal, Nat.le_trans hoj hjfinal, fun k hk => h.trusted k (hrest k hk)⟩
  · simp only [List.forall_mem_cons]
    refine ⟨fun hprov => ?_, fun hprov => ?_, fun k hk => h.unique k (hrest k hk)⟩
    · obtain rfl := hstands i hij hprov
      rcases hj with hj | hj
      · exact hj.symm
      · exact (hsame (hprov.trans (by rw [hj]))).trans hj.symm
    · obtain rfl := hstands o hoj hprov
      rcases hj with hj | hj
      · exact (hsame (by rw [hprov, hj])).symm.trans hj.symm
      · exact hj.symm

theorem settle?_some_isSome_iff {i : Info} {rest : List Info} :
    (settle? (some i) rest).isSome ↔ Compatible (i :: rest) := by
  induction rest generalizing i with
  | nil =>
    refine iff_of_true rfl ?_
    by_cases hi : i.Pinned
    · simp [compatible_cons_of_pinned hi]
    · simp [compatible_cons_of_not_pinned hi, beforePinned]
  | cons o rest ih =>
    rw [compatible_cons_cons]
    cases hoffer : offer? (some i) o with
    | none => simp [settle?, hoffer]
    | some j => simp [settle?, hoffer, ih]

theorem settle?_isSome_iff {offers : List Info} :
    (settle? none offers).isSome ↔ Compatible offers := by
  cases offers with
  | nil => exact iff_of_true rfl compatible_nil
  | cons i rest => exact settle?_some_isSome_iff

theorem settles_of_settle?_some {i : Info} {rest : List Info} {final : Option Info}
    (h : settle? (some i) rest = some final) : ∃ j, final = some j ∧ Settles (i :: rest) j := by
  induction rest generalizing i with
  | nil =>
    obtain rfl := Option.some.inj h
    exact ⟨i, rfl, by simp, by simp, by simp⟩
  | cons o rest ih =>
    obtain ⟨j, hoffer, h⟩ := Option.bind_eq_some_iff.1 h
    obtain ⟨k, rfl, hk⟩ := ih h
    exact ⟨k, rfl, hk.merge hoffer⟩

theorem exists_best? {offers : List Info} {i : Info} (hi : i ∈ offers) :
    ∃ j, best? offers = some j := by
  refine Option.ne_none_iff_exists'.1 fun hnone => ?_
  have hfind := List.findSome?_eq_none_iff.1 hnone i.provenance (mem_ranking i.provenance)
  have := List.find?_eq_none.1 hfind i hi
  simp at this

/-- The best offer is trusted no less than any. -/
theorem of_best?_eq_some {offers : List Info} {i : Info} (h : best? offers = some i) :
    i ∈ offers ∧ ∀ j ∈ offers, j.provenance.confidence ≤ i.provenance.confidence := by
  obtain ⟨before, p, after, hranking, hfind, hbefore⟩ := List.findSome?_eq_some_iff.1 h
  obtain rfl : i.provenance = p := by simpa using List.find?_some hfind
  refine ⟨List.mem_of_find?_eq_some hfind,
    fun j hj => confidence_le_of_ranking hranking fun hmem => ?_⟩
  have := List.find?_eq_none.1 (hbefore _ hmem) j hj
  simp at this

theorem Settles.best?_eq {offers : List Info} {final : Info} (h : Settles offers final) :
    best? offers = some final := by
  obtain ⟨i, hbest⟩ := exists_best? h.offered
  obtain ⟨hi, htrusted⟩ := of_best?_eq_some hbest
  have hconf := Nat.le_antisymm (h.trusted i hi) (htrusted final h.offered)
  rw [hbest, h.unique i hi (provenance_eq_of_confidence_eq hconf)]

/-- Where a sequence is accepted the best offer stands, and it is the only one of its provenance. -/
theorem of_settle? {offers : List Info} {final : Option Info}
    (h : settle? none offers = some final) :
    final = best? offers ∧ ∀ i, best? offers = some i → ∀ j ∈ offers, j.provenance = i.provenance →
      j = i := by
  cases offers with
  | nil => exact ⟨(Option.some.inj h).symm, by simp⟩
  | cons i rest =>
    obtain ⟨j, rfl, hj⟩ := settles_of_settle?_some h
    refine ⟨hj.best?_eq.symm, fun k hk => ?_⟩
    obtain rfl := Option.some.inj (hj.best?_eq.symm.trans hk)
    exact hj.unique

/-- The order of the offers does not matter to the best one as long as it is the only one of its
provenance. -/
theorem best?_eq_of_perm {offers offers' : List Info} (hperm : offers.Perm offers')
    (hunique : ∀ i, best? offers = some i → ∀ j ∈ offers, j.provenance = i.provenance → j = i) :
    best? offers' = best? offers := by
  cases hbest : best? offers with
  | none =>
    cases hbest' : best? offers' with
    | none => rfl
    | some i =>
      obtain ⟨j, hj⟩ := exists_best? (hperm.mem_iff.2 (of_best?_eq_some hbest').1)
      rw [hbest] at hj
      cases hj
  | some i =>
    obtain ⟨hi, htrusted⟩ := of_best?_eq_some hbest
    exact Settles.best?_eq ⟨hperm.mem_iff.1 hi, fun j hj => htrusted j (hperm.mem_iff.2 hj),
      fun j hj => hunique i hbest j (hperm.mem_iff.2 hj)⟩

end Info

/-! ## Records of a level -/

/-- The record of a name is for that name. -/
theorem Level.record?_eq (l : Level) (name : String) :
    l.record? name = (l.info? name).map fun i => i.record name := by
  cases h : l.record? name with
  | none => simp [info?, h]
  | some r =>
    obtain rfl : r.name = name := by simpa using List.find?_some h
    simp [info?, h, ValueRecord.info, Info.record]

namespace Build

/-- Offer a name one record after another. -/
def registerAll (name : String) (offers : List Info) : Build Unit :=
  offers.forM fun i => registerRecord (i.record name)

/-- A sequence of offers changes the records alone, as `Info.settle?` says. -/
theorem registerAll_spec (name : String) (offers : List Info) (b : Builder) :
    (Info.settle? (b.level.info? name) offers = none ∧ ∀ b',
      registerAll name offers b ≠ .ok () b') ∨
      ∃ final records log, Info.settle? (b.level.info? name) offers = some final ∧
        registerAll name offers b = .ok () { b with level := { b.level with records }, log } ∧
        { b.level with records }.info? = Function.update b.level.info? name final := by
  induction offers generalizing b with
  | nil => exact Or.inr ⟨_, b.level.records, b.log, rfl, rfl, (Function.update_eq_self _ _).symm⟩
  | cons i rest ih =>
    rcases registerRecord_spec (i.record name) b with ⟨hoffer, hfail⟩ |
      ⟨j, records, log, hoffer, hok, hinfo⟩
    · refine Or.inl ⟨?_, fun b' h => ?_⟩
      · exact congrArg (Option.bind · _) hoffer
      · obtain ⟨_, c, hc, -⟩ := Step.bind_eq_ok.1 h
        exact hfail c hc
    · have hrun : registerAll name (i :: rest) b =
          registerAll name rest { b with level := { b.level with records }, log } :=
            Step.bind_of_ok hok
      have hsettle : Info.settle? (b.level.info? name) (i :: rest) =
          Info.settle? ({ b.level with records }.info? name) rest := by
        rw [hinfo]
        exact (congrArg (Option.bind · _) hoffer).trans (by simp [Info.record])
      rw [hrun, hsettle]
      rcases ih { b with level := { b.level with records }, log } with h |
        ⟨final, records', log', h, hok', hinfo'⟩
      · exact Or.inl h
      · refine Or.inr ⟨final, records', log', h, hok', ?_⟩
        rw [hinfo', hinfo]
        exact Function.update_idem _ _ _

section New

variable {b b' : Builder} {name : String} {offers : List Info}

theorem exists_registerAll_iff (hnew : b.level.record? name = none) :
    (∃ b', registerAll name offers b = .ok () b') ↔ Info.Compatible offers := by
  have hstart : b.level.info? name = none := by simp [Level.info?, hnew]
  rw [← Info.settle?_isSome_iff]
  rcases registerAll_spec name offers b with ⟨hsettle, hfail⟩ |
    ⟨final, records, log, hsettle, hok, -⟩
  · simp [hstart ▸ hsettle, hfail]
  · simp [hstart ▸ hsettle, hok]

/-- The best offer is left. -/
theorem record?_of_registerAll (hnew : b.level.record? name = none)
    (h : registerAll name offers b = .ok () b') :
    b'.level.record? name = (Info.best? offers).map (fun i => i.record name) ∧
      ∀ i, Info.best? offers = some i → ∀ j ∈ offers, j.provenance = i.provenance → j = i := by
  have hstart : b.level.info? name = none := by simp [Level.info?, hnew]
  rcases registerAll_spec name offers b with ⟨-, hfail⟩ | ⟨final, records, log, hsettle, hok, hinfo⟩
  · exact absurd h (hfail b')
  · obtain ⟨-, rfl⟩ := EStateM.Result.ok.inj (hok.symm.trans h)
    obtain ⟨hbest, hunique⟩ := Info.of_settle? (hstart ▸ hsettle)
    refine ⟨?_, hunique⟩
    rw [Level.record?_eq, hinfo, Function.update_self, hbest]

/-- Everything else is left as it was. -/
theorem level_of_registerAll (h : registerAll name offers b = .ok () b') :
    (∀ other, other ≠ name → b'.level.record? other = b.level.record? other) ∧
      b'.level = { b.level with records := b'.level.records } := by
  rcases registerAll_spec name offers b with ⟨-, hfail⟩ | ⟨final, records, log, -, hok, hinfo⟩
  · exact absurd h (hfail b')
  · obtain ⟨-, rfl⟩ := EStateM.Result.ok.inj (hok.symm.trans h)
    refine ⟨fun other hother => ?_, rfl⟩
    rw [Level.record?_eq, hinfo, Function.update_of_ne hother, ← Level.record?_eq]

end New

/-- Offers to a name without a record are all accepted exactly if they are compatible; then the
first offer of the most trusted provenance stands, all of that provenance say the same, any other
order that is accepted leaves the same record, and nothing else of the level changes. -/
theorem registerAll_eq_ok_iff_compatible {b : Builder} {name : String}
    (hnew : b.level.record? name = none) (offers : List Info) :
    ((∃ b', registerAll name offers b = .ok () b') ↔ Info.Compatible offers) ∧
      ∀ b', registerAll name offers b = .ok () b' →
        b'.level.record? name = (Info.best? offers).map (fun i => i.record name) ∧
        (∀ i, Info.best? offers = some i → ∀ j ∈ offers, j.provenance = i.provenance → j.Agrees i) ∧
        (∀ offers' c c', offers.Perm offers' → c.level.record? name = none →
          registerAll name offers' c = .ok () c' → c'.level.record? name = b'.level.record? name) ∧
        (∀ other, other ≠ name → b'.level.record? other = b.level.record? other) ∧
        b'.level = { b.level with records := b'.level.records } := by
  refine ⟨exists_registerAll_iff hnew, fun b' h => ?_⟩
  obtain ⟨hrecord, hunique⟩ := record?_of_registerAll hnew h
  refine ⟨hrecord, fun i hi j hj hp => ?_, fun offers' c c' hperm hc hrun => ?_,
    level_of_registerAll h⟩
  · rw [hunique i hi j hj hp]
    exact Info.Agrees.refl i
  · rw [(record?_of_registerAll hc hrun).1, hrecord, Info.best?_eq_of_perm hperm hunique]

end Build

namespace Example

/-- A repair overrules two guesses, a third guess comes too late, and a declaration agrees with the
repair. -/
def overruled : List Info :=
  [⟨[.fixed 2], .f32, .subgraph⟩, ⟨[.fixed 2], .f32, .recovered⟩, ⟨[.named "B"], .i32, .repaired⟩,
    ⟨[.fixed 3], .f32, .recovered⟩, ⟨[.named "B"], .i32, .declared⟩]

end Example

/-- These offers and their reverse are accepted and leave the declared record, though the guesses
differ. -/
theorem registerAll_overruled :
    (Builder.start "main").level.record? "x" = none ∧
      ∃ b c, Build.registerAll "x" Example.overruled (.start "main") = .ok () b ∧
        Build.registerAll "x" Example.overruled.reverse (.start "main") = .ok () c ∧
        b.level.record? "x" = some ⟨"x", [.named "B"], .i32, .declared⟩ ∧
        c.level.record? "x" = b.level.record? "x" := by
  have hnew : (Builder.start "main").level.record? "x" = none := rfl
  obtain ⟨haccepted, hleaves⟩ := Build.registerAll_eq_ok_iff_compatible hnew Example.overruled
  obtain ⟨b, hb⟩ := haccepted.2 (by decide)
  obtain ⟨c, hc⟩ :=
    (Build.registerAll_eq_ok_iff_compatible hnew Example.overruled.reverse).1.2 (by decide)
  obtain ⟨hrecord, -, horder, -⟩ := hleaves b hb
  exact ⟨hnew, b, c, hb, hc, hrecord.trans (by decide),
    horder _ _ c (List.reverse_perm _).symm hnew hc⟩

end TensorGraph
