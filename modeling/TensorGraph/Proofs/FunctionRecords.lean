import Mathlib.Data.List.Count
import TensorGraph.Proofs.SameBodies

/-!
# Records of functions

The records of a function are those of the tensors of its parameters and those that its level has of
names with local names, sorted by local names. Each of the two sources has at most one record under
a local name, so a name has two records exactly if it is that of a parameter of which the level has
a record, too (`Level.count_recordKeys`, `Level.nodup_recordKeys_iff`). Apart from these, a function
has one record of every parameter, of every output and of every input of which the level has one, in
the strict order of local names (`Level.records_toFunction`).

The order in which the level's records are looked up does not matter : records under different local
names are sorted, and of two under the same local name the one of the tensor comes first.
-/

namespace TensorGraph

namespace LocalName

variable {m n : LocalName}

/-- Inputs come strictly before parameters, these before outputs, and temporaries last; then
positions count as numbers. -/
def Before (m n : LocalName) : Prop :=
  m.key.1 < n.key.1 ∨ m.key.1 = n.key.1 ∧ m.key.2 < n.key.2

theorem before_iff : m.Before n ↔ m.le n = true ∧ m ≠ n := by
  constructor
  · intro h
    refine ⟨le_iff.2 ?_, ?_⟩
    · unfold Before at h
      omega
    · rintro rfl
      simp [Before] at h
  · rintro ⟨hle, hne⟩
    by_contra hnot
    have hge : n.le m = true := by
      rw [le_iff]
      unfold Before at hnot
      omega
    exact hne (le_antisymm hle hge)

end LocalName

/-- The number of records under a name. -/
def Function.recordCount (f : Function) (name : String) : Nat :=
  (f.records.map ValueRecord.name).count name

/-- Where local names differ, at most one record is under each, whatever the order is. -/
theorem filter_eq_of_perm {records records' : List (LocalName × ValueRecord)}
    (h : records.Perm records') (hnodup : (records.map Prod.fst).Nodup) (n : LocalName) :
    records.filter (·.1 = n) = records'.filter (·.1 = n) := by
  have hlength : (records.filter (·.1 = n)).length ≤ 1 := by
    have hcount := List.nodup_iff_count_le_one.1 hnodup n
    rw [List.count, List.countP_map, List.countP_eq_length_filter] at hcount
    exact hcount
  have hperm := h.filter (·.1 = n)
  rcases hfilter : records.filter (·.1 = n) with _ | ⟨p, _ | ⟨q, rest⟩⟩
  · rw [hfilter] at hperm ⊢
    exact hperm.symm.eq_nil.symm
  · rw [hfilter] at hperm ⊢
    exact (List.perm_singleton.1 hperm.symm).symm
  · simp [hfilter] at hlength

namespace Level

variable {l : Level} {params : List String} {table : InitializerTable}
  {own : List (LocalName × ValueRecord)} {x : String} {n : LocalName}

/-- The local names of the records of a function, where `own` are the records of parameters. -/
def recordKeys (l : Level) (params : List String) (own : List (LocalName × ValueRecord)) :
    List LocalName :=
  ((own ++ l.renamedRecords (l.localNames params)).mergeSort fun a b => a.1.le b.1).map Prod.fst

theorem names_functionWith (hown : paramRecords table 0 params = .ok own) (name : String) :
    (l.functionWith name params own).records.map ValueRecord.name =
      (l.recordKeys params own).map LocalName.text := by
  simp only [functionWith, recordKeys, List.map_map]
  exact List.map_congr_left fun p hp => name_of_mem_records hown p (List.mem_mergeSort.1 hp)

theorem pairwise_recordKeys : (l.recordKeys params own).Pairwise fun m n => m.le n = true :=
  List.pairwise_map.2 (pairwise_mergeSort_localName _)

/-! ## The two sources of records -/

theorem lookup_localNames_of_param (hnodup : (l.inputs ++ params).Nodup) {i : Nat}
    (hi : params[i]? = some x) :
    (l.localNames params).lookup x = some (.param i) := by
  obtain ⟨-, -, -, hparam, -⟩ := interfaceNames_spec hnodup
  exact (localNames_names hnodup).1 _ _ (hparam i x hi)

/-- The constants have a record under the local name of a name exactly if this is a parameter. -/
theorem mem_map_fst_paramRecords (hnodup : (l.inputs ++ params).Nodup)
    (hown : paramRecords table 0 params = .ok own) (hx : (l.localNames params).lookup x = some n) :
    n ∈ own.map Prod.fst ↔ x ∈ params := by
  obtain ⟨-, hinj⟩ := localNames_names hnodup
  rw [map_fst_paramRecords hown, List.mem_map]
  constructor
  · rintro ⟨i, hi, rfl⟩
    have hlt : i < params.length := by simpa using hi
    have hlookup := lookup_localNames_of_param hnodup (List.getElem?_eq_getElem hlt)
    rw [hinj x params[i] _ hx hlookup]
    exact List.getElem_mem hlt
  · intro hmem
    obtain ⟨i, hi⟩ := List.mem_iff_getElem?.1 hmem
    have hlookup := lookup_localNames_of_param hnodup hi
    exact ⟨i, by simpa using (List.getElem?_eq_some_iff.1 hi).1,
      Option.some.inj (hlookup.symm.trans hx)⟩

/-- The level has a record under the local name of a name exactly if it has one of this name. -/
theorem mem_map_fst_renamedRecords (hnodup : (l.inputs ++ params).Nodup)
    (hx : (l.localNames params).lookup x = some n) :
    n ∈ (l.renamedRecords (l.localNames params)).map Prod.fst ↔ (l.record? x).isSome := by
  obtain ⟨-, hinj⟩ := localNames_names hnodup
  have hinfo : (l.info? x).isSome ↔ (l.record? x).isSome := by simp [info?]
  rw [← hinfo, List.mem_map]
  constructor
  · rintro ⟨⟨_, s⟩, hs, rfl⟩
    obtain ⟨-, y, hy, hs⟩ := (mem_renamedRecords (l.sorted_localNames params)).1 hs
    rw [hinj x y _ hx hy, hs]
    rfl
  · intro hsome
    obtain ⟨i, hi⟩ := Option.isSome_iff_exists.1 hsome
    exact ⟨(n, ⟨n.text, i.shape, i.dtype, i.provenance⟩),
      (mem_renamedRecords (l.sorted_localNames params)).2 ⟨rfl, x, hx, hi⟩, rfl⟩

/-- Only names with local names have records in a function. -/
theorem exists_lookup_of_mem_renamedRecords
    (h : n ∈ (l.renamedRecords (l.localNames params)).map Prod.fst) :
    ∃ x, (l.localNames params).lookup x = some n := by
  obtain ⟨⟨_, s⟩, hs, rfl⟩ := List.mem_map.1 h
  obtain ⟨-, x, hx, -⟩ := (mem_renamedRecords (l.sorted_localNames params)).1 hs
  exact ⟨x, hx⟩

/-! ## Counts -/

/-- Each source has at most one record under a local name. -/
theorem count_recordKeys (hnodup : (l.inputs ++ params).Nodup)
    (hown : paramRecords table 0 params = .ok own) (n : LocalName) :
    (l.recordKeys params own).count n =
      (if n ∈ own.map Prod.fst then 1 else 0) +
        if n ∈ (l.renamedRecords (l.localNames params)).map Prod.fst then 1 else 0 := by
  obtain ⟨-, hinj⟩ := localNames_names hnodup
  have hparams : (own.map Prod.fst).Nodup := by
    rw [map_fst_paramRecords hown]
    exact (List.nodup_range').map fun _ _ => LocalName.param.inj
  rw [recordKeys, ((List.mergeSort_perm _ _).map Prod.fst).count_eq, List.map_append,
    List.count_append, hparams.count,
    (nodup_renamedRecords (l.sorted_localNames params) hinj l).count]

theorem count_recordKeys_of_lookup (hnodup : (l.inputs ++ params).Nodup)
    (hown : paramRecords table 0 params = .ok own) (hx : (l.localNames params).lookup x = some n) :
    (l.recordKeys params own).count n =
      (if x ∈ params then 1 else 0) + if (l.record? x).isSome then 1 else 0 := by
  simp only [count_recordKeys hnodup hown, mem_map_fst_paramRecords hnodup hown hx,
    mem_map_fst_renamedRecords hnodup hx]

/-- A local name with more than one record is that of a parameter of which the level has a record,
and has two. -/
theorem count_recordKeys_cases (hnodup : (l.inputs ++ params).Nodup)
    (hown : paramRecords table 0 params = .ok own) (n : LocalName) :
    (l.recordKeys params own).count n ≤ 1 ∨
      ∃ i x, params[i]? = some x ∧ (l.record? x).isSome ∧ n = .param i ∧
        (l.recordKeys params own).count n = 2 := by
  by_cases hmem : n ∈ (l.renamedRecords (l.localNames params)).map Prod.fst
  · obtain ⟨x, hx⟩ := exists_lookup_of_mem_renamedRecords hmem
    have hrecord := (mem_map_fst_renamedRecords hnodup hx).1 hmem
    have hcount := count_recordKeys_of_lookup hnodup hown hx
    by_cases hparams : x ∈ params
    · obtain ⟨i, hi⟩ := List.mem_iff_getElem?.1 hparams
      have hlookup := lookup_localNames_of_param hnodup hi
      rw [if_pos hparams, if_pos hrecord] at hcount
      exact Or.inr ⟨i, x, hi, hrecord, Option.some.inj (hx.symm.trans hlookup), hcount⟩
    · rw [if_neg hparams, if_pos hrecord] at hcount
      exact Or.inl hcount.le
  · left
    rw [count_recordKeys hnodup hown, if_neg hmem]
    split_ifs <;> simp

/-- The local names of records differ exactly if the level has no records of parameters. -/
theorem nodup_recordKeys_iff (hnodup : (l.inputs ++ params).Nodup)
    (hown : paramRecords table 0 params = .ok own) :
    (l.recordKeys params own).Nodup ↔ ∀ x ∈ params, l.record? x = none := by
  rw [List.nodup_iff_count_le_one]
  constructor
  · intro hcounts x hx
    obtain ⟨i, hi⟩ := List.mem_iff_getElem?.1 hx
    have hcount := hcounts (.param i)
    rw [count_recordKeys_of_lookup hnodup hown (lookup_localNames_of_param hnodup hi), if_pos hx]
      at hcount
    by_contra hsome
    rw [if_pos (Option.isSome_iff_ne_none.2 hsome)] at hcount
    omega
  · intro hnone n
    rcases count_recordKeys_cases hnodup hown n with hle | ⟨i, x, hi, hrecord, -⟩
    · exact hle
    · simp [hnone x (List.mem_of_getElem? hi)] at hrecord

theorem pairwise_before_recordKeys_iff :
    (l.recordKeys params own).Pairwise LocalName.Before ↔ (l.recordKeys params own).Nodup := by
  constructor
  · exact fun h => h.imp fun hmn => (LocalName.before_iff.1 hmn).2
  · intro h
    exact (pairwise_recordKeys.and h).imp LocalName.before_iff.2

/-! ## Functions -/

theorem recordCount_functionWith (hown : paramRecords table 0 params = .ok own) (name : String)
    (n : LocalName) :
    (l.functionWith name params own).recordCount n.text = (l.recordKeys params own).count n := by
  rw [Function.recordCount, names_functionWith hown,
    List.count_map_of_injective _ _ fun _ _ => LocalName.text_injective]

theorem recordCount_functionWith_apply (hnodup : (l.inputs ++ params).Nodup)
    (hown : paramRecords table 0 params = .ok own) (name : String)
    (hx : ((l.localNames params).lookup x).isSome) :
    (l.functionWith name params own).recordCount ((l.localNames params).apply x) =
      (if x ∈ params then 1 else 0) + if (l.record? x).isSome then 1 else 0 := by
  obtain ⟨n, hn⟩ := Option.isSome_iff_exists.1 hx
  rw [Renaming.apply_of_lookup hn, recordCount_functionWith hown,
    count_recordKeys_of_lookup hnodup hown hn]

theorem recordCount_functionWith_cases (hnodup : (l.inputs ++ params).Nodup)
    (hown : paramRecords table 0 params = .ok own) (name y : String) :
    (l.functionWith name params own).recordCount y ≤ 1 ∨
      ∃ i x, params[i]? = some x ∧ (l.record? x).isSome ∧ y = (LocalName.param i).text ∧
        (l.functionWith name params own).recordCount y = 2 := by
  by_cases hy : y ∈ (l.recordKeys params own).map LocalName.text
  · obtain ⟨n, -, rfl⟩ := List.mem_map.1 hy
    rw [recordCount_functionWith hown]
    refine (count_recordKeys_cases hnodup hown n).imp_right ?_
    rintro ⟨i, x, hi, hrecord, rfl, hcount⟩
    exact ⟨i, x, hi, hrecord, rfl, hcount⟩
  · left
    rw [Function.recordCount, names_functionWith hown, List.count_eq_zero_of_not_mem hy]
    exact Nat.zero_le 1

theorem inputParts?_functionWith (hnodup : (l.inputs ++ params).Nodup) (name : String) :
    (l.functionWith name params own).inputParts? =
      some (l.inputs.map (l.localNames params).apply, params.map (l.localNames params).apply) := by
  have hcount : (l.functionWith name params own).paramCount = params.length := rfl
  have hlength : (l.functionWith name params own).inputs.length - params.length =
      (l.inputs.map (l.localNames params).apply).length := by
    simp [inputs_functionWith hnodup]
  rw [Function.inputParts?, hcount, hlength, if_pos (by simp [inputs_functionWith hnodup]),
    inputs_functionWith hnodup, List.splitAt_eq, List.take_left, List.drop_left]

/-- The records of a level can be looked up in any order. -/
theorem records_functionWith_of_perm (hnodup : (l.inputs ++ params).Nodup)
    (hown : paramRecords table 0 params = .ok own) (name : String) {r : Renaming}
    (hr : r.Perm (l.localNames params)) :
    ((own ++ l.renamedRecords r).mergeSort fun a b => a.1.le b.1).map Prod.snd =
      (l.functionWith name params own).records := by
  obtain ⟨-, hinj⟩ := localNames_names hnodup
  have hperm : (l.renamedRecords (l.localNames params)).Perm (l.renamedRecords r) :=
    hr.symm.filterMap _
  have hnames := name_of_mem_records (l := l) hown
  refine (map_snd_mergeSort_eq_iff (fun p hp => hnames p ((hperm.append_left own).mem_iff.2 hp))
    hnames).2 fun n => ?_
  rw [List.filter_append, List.filter_append,
    filter_eq_of_perm hperm (nodup_renamedRecords (l.sorted_localNames params) hinj l)]

/-- The records of a function of a level whose inputs and parameters all differ. They are in the
order of local names, strictly so and with at most one for each name exactly if the level has no
records of parameters. There is one of each parameter, and a second one if the level has a record of
it; one of each input of which the level has a record; and one of each output, or two if it is a
parameter. No other names have two, and the order in which local names are looked up does not
matter. -/
theorem records_toFunction {name : String} {f : Function} (hnodup : (l.inputs ++ params).Nodup)
    (h : l.toFunction name params table = .ok f) :
    (∃ keys : List LocalName, f.records.map ValueRecord.name = keys.map LocalName.text ∧
        keys.Pairwise (fun m n => m.le n = true) ∧
        (keys.Pairwise LocalName.Before ↔ ∀ x ∈ params, l.record? x = none)) ∧
      ((f.records.map ValueRecord.name).Nodup ↔ ∀ x ∈ params, l.record? x = none) ∧
      (∃ data passed, f.inputParts? = some (data, passed) ∧
        List.Forall₂ (fun x y => f.recordCount y = if (l.record? x).isSome then 1 else 0)
          l.inputs data ∧
        List.Forall₂ (fun x y => f.recordCount y = if (l.record? x).isSome then 2 else 1)
          params passed) ∧
      List.Forall₂ (fun x y => f.recordCount y = if x ∈ params then 2 else 1) l.outputs f.outputs ∧
      (∀ y, f.recordCount y ≤ 1 ∨ ∃ i x, params[i]? = some x ∧ (l.record? x).isSome ∧
        y = (LocalName.param i).text ∧ f.recordCount y = 2) ∧
      ∃ own, paramRecords table 0 params = .ok own ∧ ∀ r : Renaming, r.Perm (l.localNames params) →
        ((own ++ l.renamedRecords r).mergeSort fun a b => a.1.le b.1).map Prod.snd = f.records := by
  obtain ⟨houtputs, own, hown, rfl⟩ := toFunction_eq_ok.1 h
  obtain ⟨-, -, -, -, hnamed⟩ := interfaceNames_spec hnodup
  obtain ⟨hext, -⟩ := localNames_names hnodup
  obtain ⟨-, -, hdisjoint⟩ := List.nodup_append.1 hnodup
  have hcount := fun {x : String} (hx : ((l.interfaceNames params).lookup x).isSome) =>
    recordCount_functionWith_apply hnodup hown name (hext.isSome hx)
  refine ⟨⟨l.recordKeys params own, names_functionWith hown name, pairwise_recordKeys, ?_⟩, ?_,
    ⟨_, _, inputParts?_functionWith hnodup name, ?_, ?_⟩, ?_,
    recordCount_functionWith_cases hnodup hown name, own, hown, fun r hr =>
      records_functionWith_of_perm hnodup hown name hr⟩
  · rw [pairwise_before_recordKeys_iff, nodup_recordKeys_iff hnodup hown]
  · rw [names_functionWith hown, List.nodup_map_iff fun _ _ => LocalName.text_injective,
      nodup_recordKeys_iff hnodup hown]
  · refine List.forall₂_map_right_iff.2 (List.forall₂_same.2 fun x hx => ?_)
    have hnot : x ∉ params := fun hmem => hdisjoint x hx x hmem rfl
    rw [hcount (isSome_interfaceNames hnodup (List.mem_append_left _ hx)), if_neg hnot,
      Nat.zero_add]
  · refine List.forall₂_map_right_iff.2 (List.forall₂_same.2 fun x hx => ?_)
    rw [hcount (isSome_interfaceNames hnodup (List.mem_append_right _ hx)), if_pos hx]
    split_ifs <;> rfl
  · refine List.forall₂_map_right_iff.2 (List.forall₂_same.2 fun x hx => ?_)
    rw [hcount (hnamed x hx), if_pos (houtputs x hx)]
    split_ifs <;> rfl

/-- A level with a record of its first parameter becomes a function with two records of it. -/
theorem records_toFunction_weighted :
    ∃ f, Example.weighted.toFunction "Weighted" ["c", "d"] Example.weights = .ok f ∧
      ¬ (f.records.map ValueRecord.name).Nodup ∧ f.recordCount "param_0" = 2 ∧
        f.recordCount "param_1" = 1 := by
  have hnodup : (Example.weighted.inputs ++ ["c", "d"]).Nodup := by decide
  obtain ⟨own, hown⟩ := @exists_paramRecords Example.weights ["c", "d"] (by decide) 0
  have hok :=
    (@toFunction_eq_ok Example.weighted ["c", "d"] "Weighted" Example.weights _).2
      ⟨by decide, own, hown, rfl⟩
  obtain ⟨-, hiff, ⟨data, passed, hparts, -, hpassed⟩, -⟩ := records_toFunction hnodup hok
  obtain ⟨-, rfl⟩ : ["in_0"] = data ∧ ["param_0", "param_1"] = passed :=
    Prod.mk.inj (Option.some.inj hparts)
  obtain ⟨hfirst, hsecond, -⟩ := List.forall₂_cons.1 hpassed |>.imp_right List.forall₂_cons.1
  refine ⟨_, hok, fun h => ?_, hfirst, hsecond⟩
  have hnone := hiff.1 h "c" (by decide)
  revert hnone
  decide

end Level

end TensorGraph
