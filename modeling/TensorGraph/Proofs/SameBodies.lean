import Mathlib.Data.List.Dedup
import Mathlib.Data.Set.Function
import TensorGraph.Proofs.UniqueFunctions

/-!
# Functions with the same body

Two levels become functions with the same body exactly if a one-to-one map of their names carries
one level to the other : its inputs, parameters and outputs, its nodes up to what they are called,
and its records (`sameBody_iff_exists_carries`). A map is read off the local names, which are one to
one in each level. The other way, local names are numbered alike at every step, and so records come
with the same local names. Sorting puts records of one local name in the order that they had
(`filter_mergeSort_eq`) : a parameter may have a record of its tensor and one of the level.
-/

namespace TensorGraph

/-! ## Levels up to their names -/

/-- Two nodes do the same thing. Attributes are compared as in the bodies of functions. -/
structure Node.SameOperation (n n' : Node) : Prop where
  opType : n.opType = n'.opType
  domain : n.domain = n'.domain
  attributes : n.attributes.isEqv n'.attributes (fun x y => x.1 == y.1 && x.2.same y.2) = true
  displayName : n.displayName = n'.displayName

/-- A node is another one with other names, whatever the nodes themselves are called. -/
structure Node.Carries (ρ : String → String) (n n' : Node) : Prop where
  operation : n.SameOperation n'
  inputs : n'.inputs = n.inputs.map ρ
  outputs : n'.outputs = n.outputs.map ρ

namespace Level

/-- A level that can become a function with these parameters, which are constants : inputs and
parameters differ, nodes read in order, and outputs have records. -/
structure Closed (l : Level) (params : List String) (table : InitializerTable) : Prop where
  constants : ∀ x ∈ params, x ∈ table.names
  nodup : (l.inputs ++ params).Nodup
  reads : ReadsFrom (l.inputs ++ params) l.nodes
  recorded : ∀ x ∈ l.outputs, (l.record? x).isSome

/-- The names that occur in a level with these parameters. -/
def occurring (l : Level) (params : List String) : List String :=
  l.inputs ++ params ++ l.outputs ++ l.nodes.flatMap fun n => n.inputs ++ n.outputs

/-- The names of a level are carried one to one to those of another, and with them all that a
function keeps of a level. -/
structure Carries (ρ : String → String) (l : Level) (params : List String)
    (table : InitializerTable) (l' : Level) (params' : List String) (table' : InitializerTable) :
    Prop where
  bijective : Set.BijOn ρ {x | x ∈ l.occurring params} {x | x ∈ l'.occurring params'}
  inputs : l'.inputs = l.inputs.map ρ
  passed : params' = params.map ρ
  tensors : ∀ x ∈ params, (table'.get? (ρ x)).map (fun t => (t.dtype, t.dims)) =
    (table.get? x).map fun t => (t.dtype, t.dims)
  outputs : l'.outputs = l.outputs.map ρ
  nodes : List.Forall₂ (Node.Carries ρ) l.nodes l'.nodes
  records : ∀ x ∈ l.occurring params, l'.info? (ρ x) = l.info? x

end Level

/-! ## Records by local names -/

section Sorting

variable {records records' : List (LocalName × ValueRecord)}

/-- Sorting keeps the order of records of one local name. -/
theorem filter_mergeSort_eq (records : List (LocalName × ValueRecord)) (n : LocalName) :
    (records.mergeSort fun a b => a.1.le b.1).filter (·.1 = n) = records.filter (·.1 = n) := by
  have hpairwise : (records.filter (·.1 = n)).Pairwise fun a b => a.1.le b.1 = true := by
    refine List.pairwise_of_forall_mem_list fun a ha b hb => ?_
    have ha : a.1 = n := by simpa using (List.mem_filter.1 ha).2
    have hb : b.1 = n := by simpa using (List.mem_filter.1 hb).2
    rw [ha, hb]
    exact n.le_refl
  have hsublist : (records.filter (·.1 = n)).Sublist (records.mergeSort fun a b => a.1.le b.1) :=
    List.sublist_mergeSort (fun a b c => @LocalName.le_trans a.1 b.1 c.1)
      (fun a b => LocalName.le_total a.1 b.1) hpairwise List.filter_sublist
  have hfilter := hsublist.filter (·.1 = n)
  rw [List.filter_filter] at hfilter
  simp only [Bool.and_self] at hfilter
  exact (hfilter.eq_of_length ((List.mergeSort_perm records _).filter _).length_eq.symm).symm

theorem mem_iff_of_filter_eq (h : ∀ n, records.filter (·.1 = n) = records'.filter (·.1 = n))
    (p : LocalName × ValueRecord) : p ∈ records ↔ p ∈ records' := by
  have hp : ∀ rs : List (LocalName × ValueRecord), p ∈ rs ↔ p ∈ rs.filter (·.1 = p.1) := by simp
  rw [hp records, h, ← hp]

/-- Sorted records are the same if those of each local name are. -/
theorem eq_of_filter_eq (hsorted : records.Pairwise fun a b => a.1.le b.1 = true)
    (hsorted' : records'.Pairwise fun a b => a.1.le b.1 = true)
    (h : ∀ n, records.filter (·.1 = n) = records'.filter (·.1 = n)) : records = records' := by
  have hmem := mem_iff_of_filter_eq h
  induction records generalizing records' with
  | nil =>
    cases records' with
    | nil => rfl
    | cons b bs => simpa using (hmem b).2 (by simp)
  | cons a as ih =>
    cases records' with
    | nil => simpa using (hmem a).1 (by simp)
    | cons b bs =>
      obtain ⟨ha, has⟩ := List.pairwise_cons.1 hsorted
      obtain ⟨hb, hbs⟩ := List.pairwise_cons.1 hsorted'
      -- Each head comes first in its list, so both have the same local name and head the records of
      -- it.
      have hab : a.1.le b.1 = true := by
        rcases List.mem_cons.1 ((hmem b).2 (by simp)) with rfl | hmem
        · exact b.1.le_refl
        · exact ha b hmem
      have hba : b.1.le a.1 = true := by
        rcases List.mem_cons.1 ((hmem a).1 (by simp)) with rfl | hmem
        · exact a.1.le_refl
        · exact hb a hmem
      have hkey := LocalName.le_antisymm hab hba
      obtain rfl : a = b := by
        have := h a.1
        simp only [List.filter_cons, hkey, decide_true, ↓reduceIte, List.cons.injEq] at this
        exact this.1
      have hrest : ∀ n, as.filter (·.1 = n) = bs.filter (·.1 = n) := fun n => by
        have := h n
        simp only [List.filter_cons] at this
        split at this
        · exact (List.cons.inj this).2
        · exact this
      rw [ih has hbs hrest (mem_iff_of_filter_eq hrest)]

theorem eq_of_map_snd_eq (hnames : ∀ p ∈ records, p.2.name = p.1.text)
    (hnames' : ∀ p ∈ records', p.2.name = p.1.text)
    (h : records.map Prod.snd = records'.map Prod.snd) : records = records' := by
  induction records generalizing records' with
  | nil => exact (List.map_eq_nil_iff.1 h.symm).symm
  | cons p rest ih =>
    cases records' with
    | nil => simp at h
    | cons p' rest' =>
      rw [List.forall_mem_cons] at hnames hnames'
      obtain ⟨hp, hrest⟩ := List.cons.inj h
      have htext : p.1.text = p'.1.text := by rw [← hnames.1, hp, hnames'.1]
      rw [Prod.ext (LocalName.text_injective htext) hp, ih hnames.2 hnames'.2 hrest]

/-- Records that are named by their local names are the same when sorted exactly if those of each
local name are. -/
theorem map_snd_mergeSort_eq_iff (hnames : ∀ p ∈ records, p.2.name = p.1.text)
    (hnames' : ∀ p ∈ records', p.2.name = p.1.text) :
    (records.mergeSort fun a b => a.1.le b.1).map Prod.snd =
      (records'.mergeSort fun a b => a.1.le b.1).map Prod.snd ↔
      ∀ n, records.filter (·.1 = n) = records'.filter (·.1 = n) := by
  constructor
  · intro h n
    have heq := eq_of_map_snd_eq (fun p hp => hnames p (List.mem_mergeSort.1 hp))
      (fun p hp => hnames' p (List.mem_mergeSort.1 hp)) h
    rw [← filter_mergeSort_eq, heq, filter_mergeSort_eq]
  · intro h
    rw [eq_of_filter_eq (pairwise_mergeSort_localName records)
      (pairwise_mergeSort_localName records') fun n => by
      rw [filter_mergeSort_eq, filter_mergeSort_eq, h]]

end Sorting

namespace Level

variable {l l' : Level} {params params' : List String} {table table' : InitializerTable}
  {r : Renaming} {ρ : String → String}

theorem mem_occurring {x : String} : x ∈ l.occurring params ↔
    x ∈ l.inputs ∨ x ∈ params ∨ x ∈ l.outputs ∨ ∃ n ∈ l.nodes, x ∈ n.inputs ∨ x ∈ n.outputs := by
  simp [occurring]

theorem inputs_subset_occurring : l.inputs ⊆ l.occurring params :=
  fun _ hx => mem_occurring.2 (Or.inl hx)

theorem params_subset_occurring : params ⊆ l.occurring params :=
  fun _ hx => mem_occurring.2 (Or.inr (Or.inl hx))

theorem outputs_subset_occurring : l.outputs ⊆ l.occurring params :=
  fun _ hx => mem_occurring.2 (Or.inr (Or.inr (Or.inl hx)))

theorem node_inputs_subset_occurring {n : Node} (hn : n ∈ l.nodes) :
    n.inputs ⊆ l.occurring params :=
  fun _ hx => mem_occurring.2 (Or.inr (Or.inr (Or.inr ⟨n, hn, Or.inl hx⟩)))

theorem node_outputs_subset_occurring {n : Node} (hn : n ∈ l.nodes) :
    n.outputs ⊆ l.occurring params :=
  fun _ hx => mem_occurring.2 (Or.inr (Or.inr (Or.inr ⟨n, hn, Or.inr hx⟩)))

theorem Closed.injective (h : l.Closed params table) : (l.localNames params).Injective :=
  (localizes_functionWith h.nodup h.reads "" []).injective

/-- Every name that occurs has a local name. -/
theorem Closed.isSome_lookup (h : l.Closed params table) {x : String}
    (hx : x ∈ l.occurring params) :
    ((l.localNames params).lookup x).isSome := by
  have hnamed := (localizes_functionWith h.nodup h.reads "" []).named
  have houtputs : ∀ {n : Node}, n ∈ l.nodes → x ∈ n.outputs → x ∈ l.nodes.flatMap Node.outputs :=
    fun hn hx =>
    List.mem_flatMap.2 ⟨_, hn, hx⟩
  refine hnamed x ?_
  rcases mem_occurring.1 hx with hx | hx | hx | ⟨n, hn, hx | hx⟩
  · simp [hx]
  · simp [hx]
  · simp [hx]
  · exact List.mem_append_left _ (h.reads.mem_of_mem_inputs hn hx)
  · exact List.mem_append_left _ (List.mem_append_right _ (houtputs hn hx))

/-- Only names that occur have local names. -/
theorem Closed.mem_of_lookup (h : l.Closed params table) {x : String} {n : LocalName}
    (hx : (l.localNames params).lookup x = some n) : x ∈ l.occurring params := by
  by_contra hnot
  -- Exchange the name with one that does not occur either : the level stays, and so do the local
  -- names.
  obtain ⟨z, hz⟩ := exists_not_mem (x :: l.occurring params)
  rw [List.mem_cons, not_or] at hz
  have hfixed : ∀ {xs : List String}, xs ⊆ l.occurring params → xs = xs.map (Equiv.swap x z) :=
    fun hxs => by
    rw [List.map_congr_left fun y hy =>
      Equiv.swap_apply_of_ne_of_ne (ne_of_mem_of_not_mem (hxs hy) hnot)
        (ne_of_mem_of_not_mem (hxs hy) hz.2), List.map_id']
  have hmatches := @matches_localNames (Equiv.swap x z) l l (hfixed inputs_subset_occurring)
    (hfixed outputs_subset_occurring)
    (List.forall₂_same.2 fun n hn => hfixed (node_outputs_subset_occurring hn)) params
  rw [← hfixed params_subset_occurring] at hmatches
  have hlookup := hmatches.lookup x
  rw [Equiv.swap_apply_left, hx] at hlookup
  exact hz.1 (h.injective z x n hlookup hx)

/-- The record of a name comes under its local name. -/
theorem filter_renamedRecords (hsorted : Keyed.Sorted r) (hinj : r.Injective) {x : String}
    {n : LocalName} (hx : r.lookup x = some n) : (l.renamedRecords r).filter (·.1 = n) =
      ((l.info? x).map fun i =>
        (n, (⟨n.text, i.shape, i.dtype, i.provenance⟩ : ValueRecord))).toList := by
  have hperm : ((l.renamedRecords r).filter (·.1 = n)).Perm
      ((l.info? x).map fun i =>
        (n, (⟨n.text, i.shape, i.dtype, i.provenance⟩ : ValueRecord))).toList := by
    refine (List.perm_ext_iff_of_nodup ((nodup_renamedRecords hsorted hinj l).of_map.filter _) ?_).2
      fun ⟨m, s⟩ => ?_
    · cases l.info? x <;> simp
    · rw [List.mem_filter, mem_renamedRecords hsorted, Option.mem_toList, Option.map_eq_some_iff]
      constructor
      · rintro ⟨⟨hname, y, hy, hinfo⟩, hm⟩
        obtain rfl : m = n := by simpa using hm
        obtain rfl : y = x := hinj y x m hy hx
        exact ⟨s.info, hinfo, by rw [← hname]; rfl⟩
      · rintro ⟨i, hinfo, hs⟩
        obtain ⟨rfl, rfl⟩ := Prod.mk.inj hs
        exact ⟨⟨rfl, x, hx, hinfo⟩, by simp⟩
  cases hinfo : l.info? x with
  | none =>
    rw [hinfo] at hperm
    exact hperm.eq_nil
  | some i =>
    rw [hinfo] at hperm
    exact List.perm_singleton.1 hperm

theorem filter_renamedRecords_eq_nil {n : LocalName}
    (h : ¬ ∃ x, (l.localNames params).lookup x = some n) :
    (l.renamedRecords (l.localNames params)).filter (·.1 = n) = [] := by
  refine List.filter_eq_nil_iff.2 fun ⟨m, s⟩ hmem hm => ?_
  obtain rfl : m = n := by simpa using hm
  obtain ⟨-, x, hx, -⟩ := (mem_renamedRecords (l.sorted_localNames params)).1 hmem
  exact h ⟨x, hx⟩

theorem filter_renamedRecords_eq_iff (h : l.Closed params table) (h' : l'.Closed params' table')
    {x x' : String} {n : LocalName} (hx : (l.localNames params).lookup x = some n)
    (hx' : (l'.localNames params').lookup x' = some n) :
    (l.renamedRecords (l.localNames params)).filter (·.1 = n) =
        (l'.renamedRecords (l'.localNames params')).filter (·.1 = n) ↔ l.info? x = l'.info? x' := by
  rw [filter_renamedRecords (l.sorted_localNames params) h.injective hx,
    filter_renamedRecords (l'.sorted_localNames params') h'.injective hx']
  rcases l.info? x with _ | ⟨shape, dtype, provenance⟩ <;> rcases l'.info? x' with _ |
    ⟨shape', dtype', provenance'⟩ <;> simp

/-- The records of parameters say the types of their tensors. -/
theorem paramRecords_eq_iff {k : Nat} {records records' : List (LocalName × ValueRecord)}
    (h : paramRecords table k params = .ok records)
    (h' : paramRecords table' k params' = .ok records') :
    records = records' ↔ params.map (fun x => (table.get? x).map fun t => (t.dtype, t.dims)) =
      params'.map fun x => (table'.get? x).map fun t => (t.dtype, t.dims) := by
  induction params generalizing k records params' records' with
  | nil =>
    obtain rfl : [] = records := by simpa [paramRecords] using h
    cases params' with
    | nil =>
      obtain rfl : [] = records' := by simpa [paramRecords] using h'
      simp
    | cons x' rest' =>
      obtain ⟨tensor', others', -, -, rfl⟩ := paramRecords_cons_eq_ok.1 h'
      simp
  | cons x rest ih =>
    obtain ⟨tensor, others, hget, hrest, rfl⟩ := paramRecords_cons_eq_ok.1 h
    cases params' with
    | nil =>
      obtain rfl : [] = records' := by simpa [paramRecords] using h'
      simp
    | cons x' rest' =>
      obtain ⟨tensor', others', hget', hrest', rfl⟩ := paramRecords_cons_eq_ok.1 h'
      have hdims : tensor.dims.map ShapeDim.fixed = tensor'.dims.map ShapeDim.fixed ↔
          tensor.dims = tensor'.dims :=
        List.map_inj_right fun _ _ => ShapeDim.fixed.inj
      simp [hget, hget', ih hrest hrest', hdims, and_comm, and_assoc]

theorem pairwise_paramRecords {k : Nat} {records : List (LocalName × ValueRecord)}
    (h : paramRecords table k params = .ok records) :
    records.Pairwise fun a b => a.1.le b.1 = true := by
  have hkeys : (records.map Prod.fst).Pairwise fun a b => a.le b = true := by
    rw [map_fst_paramRecords h, List.pairwise_map]
    refine List.pairwise_le_range'.imp fun {i j} (hle : i ≤ j) => ?_
    exact LocalName.le_iff.2 (Or.inr ⟨rfl, hle⟩)
  exact List.pairwise_map.1 hkeys

/-- Where parameters are as many, the records of parameters and those of the level can be compared
apart. -/
theorem filter_append_eq_iff {records records' own own' : List (LocalName × ValueRecord)}
    (hkeys : records.map Prod.fst = records'.map Prod.fst) (n : LocalName) :
    (records ++ own).filter (·.1 = n) = (records' ++ own').filter (·.1 = n) ↔
      records.filter (·.1 = n) = records'.filter (·.1 = n) ∧
      own.filter (·.1 = n) = own'.filter (·.1 = n) := by
  have hcount : ∀ rs : List (LocalName × ValueRecord),
      (rs.filter (·.1 = n)).length = ((rs.map Prod.fst).filter (· = n)).length := fun rs => by
    rw [List.filter_map, List.length_map]
    rfl
  have hlength : (records.filter (·.1 = n)).length = (records'.filter (·.1 = n)).length := by
    rw [hcount, hcount, hkeys]
  rw [List.filter_append, List.filter_append]
  exact ⟨fun h => List.append_inj h hlength, fun ⟨h, h'⟩ => by rw [h, h']⟩

/-! ## Bodies -/

/-- Two levels have the same local names in order, and nodes that do the same things. -/
structure SameLocally (l : Level) (params : List String) (l' : Level) (params' : List String) :
    Prop where
  inputs : l.inputs.map (l.localNames params).apply = l'.inputs.map (l'.localNames params').apply
  passed : params.map (l.localNames params).apply = params'.map (l'.localNames params').apply
  outputs : l.outputs.map (l.localNames params).apply = l'.outputs.map (l'.localNames params').apply
  nodes : List.Forall₂ (fun n n' => n.SameOperation n' ∧
    n.inputs.map (l.localNames params).apply = n'.inputs.map (l'.localNames params').apply ∧
    n.outputs.map (l.localNames params).apply = n'.outputs.map (l'.localNames params').apply)
    l.nodes l'.nodes

end Level

theorem Node.same_localized_iff {r r' : Renaming} {n n' : Node} {k : Nat} :
    (n.localized r k).same (n'.localized r' k) = true ↔ n.SameOperation n' ∧
      n.inputs.map r.apply = n'.inputs.map r'.apply ∧
      n.outputs.map r.apply = n'.outputs.map r'.apply := by
  simp only [same, localized, Bool.and_eq_true, beq_iff_eq]
  constructor
  · rintro ⟨⟨⟨⟨⟨⟨-, hop⟩, hdomain⟩, hinputs⟩, houtputs⟩, hattributes⟩, hdisplay⟩
    exact ⟨⟨hop, hdomain, hattributes, hdisplay⟩, hinputs, houtputs⟩
  · rintro ⟨⟨hop, hdomain, hattributes, hdisplay⟩, hinputs, houtputs⟩
    exact ⟨⟨⟨⟨⟨⟨by rw [hop], hop⟩, hdomain⟩, hinputs⟩, houtputs⟩, hattributes⟩, hdisplay⟩

theorem isEqv_localized_iff {r r' : Renaming} {nodes nodes' : List Node} (k : Nat) :
    ((nodes.zipIdx k).map fun p => p.1.localized r p.2).isEqv
        ((nodes'.zipIdx k).map fun p => p.1.localized r' p.2) Node.same = true ↔
      List.Forall₂ (fun n n' => n.SameOperation n' ∧ n.inputs.map r.apply = n'.inputs.map r'.apply ∧
        n.outputs.map r.apply = n'.outputs.map r'.apply) nodes nodes' := by
  induction nodes generalizing nodes' k with
  | nil => cases nodes' <;> simp
  | cons n rest ih =>
    cases nodes' with
    | nil => simp
    | cons n' rest' =>
      simp only [List.zipIdx_cons, List.map_cons, List.isEqv, Bool.and_eq_true, ih,
        Node.same_localized_iff, List.forall₂_cons]

namespace Level

variable {l l' : Level} {params params' : List String} {table table' : InitializerTable}
  {ρ : String → String}

/-- The records of a function are named by their local names. -/
theorem name_of_mem_records {records : List (LocalName × ValueRecord)}
    (hrecords : paramRecords table 0 params = .ok records) :
    ∀ p ∈ records ++ l.renamedRecords (l.localNames params), p.2.name = p.1.text := fun p hp =>
  (List.mem_append.1 hp).elim (name_of_mem_paramRecords hrecords p) fun hp =>
    ((mem_renamedRecords (l.sorted_localNames params)).1 hp).1

/-- Inputs and parameters are the same together exactly if they are the same apart. -/
theorem map_append_eq_and_length_eq_iff {xs xs' ys ys' : List String} {f g : String → String} :
    (xs ++ ys).map f = (xs' ++ ys').map g ∧ ys.length = ys'.length ↔ xs.map f = xs'.map g ∧
      ys.map f = ys'.map g := by
  rw [List.map_append, List.map_append]
  constructor
  · rintro ⟨heq, hlength⟩
    exact List.append_inj' heq (by simpa using hlength)
  · rintro ⟨hxs, hys⟩
    exact ⟨by rw [hxs, hys], by simpa using congrArg List.length hys⟩

/-- Bodies are compared by local names and by the records of each local name. -/
theorem sameBody_iff (h : l.Closed params table) (h' : l'.Closed params' table')
    {name name' : String} {f f' : Function} (hf : l.toFunction name params table = .ok f)
    (hf' : l'.toFunction name' params' table' = .ok f') :
    f.sameBody f' = true ↔ l.SameLocally params l' params' ∧
      params.map (fun x => (table.get? x).map fun t => (t.dtype, t.dims)) =
        params'.map (fun x => (table'.get? x).map fun t => (t.dtype, t.dims)) ∧
      ∀ n, (l.renamedRecords (l.localNames params)).filter (·.1 = n) =
        (l'.renamedRecords (l'.localNames params')).filter (·.1 = n) := by
  obtain ⟨-, records, hrecords, rfl⟩ := toFunction_eq_ok.1 hf
  obtain ⟨-, records', hrecords', rfl⟩ := toFunction_eq_ok.1 hf'
  have hlocal := localizes_functionWith h.nodup h.reads name records
  have hlocal' := localizes_functionWith h'.nodup h'.reads name' records'
  have hkeys : params.length = params'.length → records.map Prod.fst = records'.map Prod.fst :=
    fun hlength => by
    rw [map_fst_paramRecords hrecords, map_fst_paramRecords hrecords', hlength]
  have hsorted :=
    map_snd_mergeSort_eq_iff (name_of_mem_records (l := l) hrecords)
      (name_of_mem_records (l := l') hrecords')
  simp only [Function.sameBody, Bool.and_eq_true, beq_iff_eq]
  rw [hlocal.inputs, hlocal'.inputs, hlocal.outputs, hlocal'.outputs, hlocal.nodes, hlocal'.nodes,
    isEqv_localized_iff]
  constructor
  · rintro ⟨⟨⟨⟨⟨-, hin⟩, hcount⟩, hout⟩, hnodes⟩, hrecord⟩
    obtain ⟨hin, hpassed⟩ := map_append_eq_and_length_eq_iff.1 ⟨hin, hcount⟩
    have hfilter := fun n => (filter_append_eq_iff (hkeys hcount) n).1 (hsorted.1 hrecord n)
    have heq :=
      eq_of_filter_eq (pairwise_paramRecords hrecords) (pairwise_paramRecords hrecords') fun n =>
        (hfilter n).1
    exact ⟨⟨hin, hpassed, hout, hnodes⟩, (paramRecords_eq_iff hrecords hrecords').1 heq,
      fun n => (hfilter n).2⟩
  · rintro ⟨⟨hin, hpassed, hout, hnodes⟩, htypes, hown⟩
    obtain ⟨hin, hcount⟩ := map_append_eq_and_length_eq_iff.2 ⟨hin, hpassed⟩
    obtain rfl := (paramRecords_eq_iff hrecords hrecords').2 htypes
    have hrecord := hsorted.2 fun n => (filter_append_eq_iff (hkeys hcount) n).2 ⟨rfl, hown n⟩
    exact ⟨⟨⟨⟨⟨rfl, hin⟩, hcount⟩, hout⟩, hnodes⟩, hrecord⟩

/-! ## Maps of names -/

/-- A map that is one to one on some names is a permutation of all names there. -/
theorem exists_perm_eqOn {xs : List String} (h : Set.InjOn ρ {x | x ∈ xs}) :
    ∃ π : Equiv.Perm String, ∀ x ∈ xs, π x = ρ x := by
  obtain ⟨π, hπ, -⟩ := @exists_perm_of_nodup [] xs.dedup (xs.dedup.map ρ) (by simp) xs.nodup_dedup
    (xs.nodup_dedup.map_on fun x hx y hy => h (List.mem_dedup.1 hx) (List.mem_dedup.1 hy)) (by simp)
    (by simp)
  exact ⟨π, fun x hx => List.map_inj_left.1 hπ x (List.mem_dedup.2 hx)⟩

/-- Names that are the same when they are read in two ways, both one to one, are carried to each
other. -/
theorem exists_bijOn_of_map_eq {f g : String → String} {xs ys : List String}
    (h : xs.map f = ys.map g) (hf : Set.InjOn f {x | x ∈ xs}) (hg : Set.InjOn g {y | y ∈ ys}) :
    ∃ ρ, Set.BijOn ρ {x | x ∈ xs} {y | y ∈ ys} ∧ (∀ x ∈ xs, g (ρ x) = f x) ∧
      ∀ zs zs' : List String, zs' ⊆ ys → zs.map f = zs'.map g → zs' = zs.map ρ := by
  -- Read a name in the first way, and look for the name of the other list that reads so.
  have hexists : ∀ x ∈ xs, ∃ y ∈ {y | y ∈ ys}, g y = f x :=
    fun x hx => List.mem_map.1 (h ▸ List.mem_map_of_mem hx)
  have hinverse : ∀ y ∈ ys, Function.invFunOn g {y | y ∈ ys} (g y) = y :=
    fun y hy => hg.leftInvOn_invFunOn hy
  refine ⟨Function.invFunOn g {y | y ∈ ys} ∘ f,
    ⟨fun x hx => Function.invFunOn_mem (hexists x hx), ?_, ?_⟩, fun x hx =>
      Function.invFunOn_eq (hexists x hx), ?_⟩
  · intro x hx x' hx' (heq : Function.invFunOn g _ (f x) = Function.invFunOn g _ (f x'))
    exact hf hx hx' (by rw [← Function.invFunOn_eq (hexists x hx), heq,
      Function.invFunOn_eq (hexists x' hx')])
  · intro y hy
    obtain ⟨x, hx, hxy⟩ := List.mem_map.1 (h ▸ List.mem_map_of_mem hy : g y ∈ xs.map f)
    exact ⟨x, hx, by rw [Function.comp_apply, hxy, hinverse y hy]⟩
  · intro zs zs' hzs' heq
    have hread : (zs'.map g).map (Function.invFunOn g {y | y ∈ ys}) = zs'.map id := by
      rw [List.map_map]
      exact List.map_congr_left fun y hy => hinverse y (hzs' hy)
    rw [← List.map_map, heq, hread, List.map_id]

theorem map_names_eq_of_forall₂ {f g : String → String} {nodes nodes' : List Node}
    (h : List.Forall₂ (fun n n' => n.inputs.map f = n'.inputs.map g ∧
      n.outputs.map f = n'.outputs.map g) nodes nodes') :
    (nodes.flatMap fun n => n.inputs ++ n.outputs).map f =
      (nodes'.flatMap fun n => n.inputs ++ n.outputs).map g := by
  induction h with
  | nil => rfl
  | cons hn _ ih =>
    rw [List.flatMap_cons, List.flatMap_cons, List.map_append, List.map_append, List.map_append,
      List.map_append, hn.1, hn.2, ih]

/-- A map of names is read off the local names of levels that become functions with the same
body. -/
theorem exists_carries_of_sameBody (h : l.Closed params table) (h' : l'.Closed params' table')
    {name name' : String} {f f' : Function} (hf : l.toFunction name params table = .ok f)
    (hf' : l'.toFunction name' params' table' = .ok f') (hsame : f.sameBody f' = true) :
    ∃ ρ, Carries ρ l params table l' params' table' := by
  obtain ⟨hlocal, htypes, hrecords⟩ := (sameBody_iff h h' hf hf').1 hsame
  have hinj : ∀ {l : Level} {params : List String} {table : InitializerTable},
      l.Closed params table →
      Set.InjOn (l.localNames params).apply {x | x ∈ l.occurring params} := fun h x hx y hy =>
    h.injective.eq_of_apply_eq (h.isSome_lookup hx) (h.isSome_lookup hy)
  have hoccurring : (l.occurring params).map (l.localNames params).apply =
      (l'.occurring params').map (l'.localNames params').apply := by
    simp only [occurring, List.map_append, hlocal.inputs, hlocal.passed, hlocal.outputs]
    rw [map_names_eq_of_forall₂ (hlocal.nodes.imp fun _ _ hn => hn.2)]
  obtain ⟨ρ, hbij, happly, hmap⟩ := exists_bijOn_of_map_eq hoccurring (hinj h) (hinj h')
  have hpassed : params' = params.map ρ := hmap _ _ params_subset_occurring hlocal.passed
  refine ⟨ρ, hbij, hmap _ _ inputs_subset_occurring hlocal.inputs, hpassed, fun x hx => ?_,
    hmap _ _ outputs_subset_occurring hlocal.outputs, ?_, fun x hx => ?_⟩
  · rw [hpassed, List.map_map] at htypes
    exact (List.map_inj_left.1 htypes x hx).symm
  · have hmem : List.Forall₂ (fun n' n => n' ∈ l'.nodes ∧ _) l'.nodes l.nodes :=
      (List.forall₂_and_left _ _).2 ⟨fun _ => id, hlocal.nodes.flip⟩
    exact hmem.flip.imp fun n n' ⟨hn', hop, hin, hout⟩ =>
      ⟨hop, hmap _ _ (node_inputs_subset_occurring hn') hin,
        hmap _ _ (node_outputs_subset_occurring hn') hout⟩
  · obtain ⟨n, hn⟩ := Option.isSome_iff_exists.1 (h.isSome_lookup hx)
    obtain ⟨n', hn'⟩ := Option.isSome_iff_exists.1 (h'.isSome_lookup (hbij.mapsTo hx))
    have htext := happly x hx
    rw [Renaming.apply_of_lookup hn, Renaming.apply_of_lookup hn'] at htext
    obtain rfl := LocalName.text_injective htext
    exact ((filter_renamedRecords_eq_iff h h' hn hn').1 (hrecords n')).symm

/-- Levels that a map of names carries to each other become functions with the same body. -/
theorem Carries.sameBody (hρ : Carries ρ l params table l' params' table')
    (h : l.Closed params table) (h' : l'.Closed params' table') {name name' : String}
    {f f' : Function} (hf : l.toFunction name params table = .ok f)
    (hf' : l'.toFunction name' params' table' = .ok f') : f.sameBody f' = true := by
  obtain ⟨π, hπ⟩ := exists_perm_eqOn hρ.bijective.injOn
  have hmap : ∀ {xs : List String}, xs ⊆ l.occurring params → xs.map ρ = xs.map π := fun hxs =>
    List.map_congr_left fun x hx => (hπ x (hxs hx)).symm
  have hnodes : List.Forall₂ (fun n n' => n ∈ l.nodes ∧ n.Carries ρ n') l.nodes l'.nodes :=
    (List.forall₂_and_left _ _).2 ⟨fun _ => id, hρ.nodes⟩
  have hmatches := matches_localNames (hρ.inputs.trans (hmap inputs_subset_occurring))
    (hρ.outputs.trans (hmap outputs_subset_occurring))
    (hnodes.imp fun n n' ⟨hn, hcarries⟩ =>
      hcarries.outputs.trans (hmap (node_outputs_subset_occurring hn))) params
  rw [← hmap params_subset_occurring, ← hρ.passed] at hmatches
  have happly : ∀ {xs xs' : List String}, xs' = xs.map ρ → xs ⊆ l.occurring params →
      xs.map (l.localNames params).apply = xs'.map (l'.localNames params').apply :=
        fun heq hxs => by
    rw [heq, hmap hxs, hmatches.map_apply_eq fun x hx => h.isSome_lookup (hxs hx)]
  have hlocal : l.SameLocally params l' params' := by
    refine ⟨happly hρ.inputs inputs_subset_occurring, happly hρ.passed params_subset_occurring,
      happly hρ.outputs outputs_subset_occurring, hnodes.imp fun n n' ⟨hn, hcarries⟩ =>
        ⟨hcarries.operation, ?_, ?_⟩⟩
    · exact happly hcarries.inputs (node_inputs_subset_occurring hn)
    · exact happly hcarries.outputs (node_outputs_subset_occurring hn)
  refine (sameBody_iff h h' hf hf').2 ⟨hlocal, ?_, fun n => ?_⟩
  · rw [hρ.passed, List.map_map]
    exact List.map_congr_left fun x hx => (hρ.tensors x hx).symm
  · by_cases hn : ∃ x, (l.localNames params).lookup x = some n
    · obtain ⟨x, hx⟩ := hn
      have hmem := h.mem_of_lookup hx
      have hx' := (hmatches.lookup x).trans hx
      refine (filter_renamedRecords_eq_iff h h' hx hx').2 ?_
      rw [hπ x hmem, hρ.records x hmem]
    · -- No name of either level has this local name.
      have hn' : ¬ ∃ x, (l'.localNames params').lookup x = some n := fun ⟨y, hy⟩ => by
        obtain ⟨x, rfl⟩ := π.surjective y
        exact hn ⟨x, (hmatches.lookup x).symm.trans hy⟩
      rw [filter_renamedRecords_eq_nil hn, filter_renamedRecords_eq_nil hn']

theorem Closed.exists_toFunction (h : l.Closed params table) (name : String) :
    ∃ f, l.toFunction name params table = .ok f := by
  obtain ⟨records, hrecords⟩ := exists_paramRecords h.constants 0
  exact ⟨_, toFunction_eq_ok.2 ⟨h.recorded, records, hrecords, rfl⟩⟩

end Level

/-- Two levels become functions, which have the same body exactly if a one-to-one map of names
carries one level to the other. -/
theorem sameBody_iff_exists_carries {l l' : Level} {params params' : List String}
    {table table' : InitializerTable} (h : l.Closed params table) (h' : l'.Closed params' table')
    (name name' : String) :
    ∃ f f', l.toFunction name params table = .ok f ∧ l'.toFunction name' params' table' = .ok f' ∧
      (f.sameBody f' = true ↔ ∃ ρ, Level.Carries ρ l params table l' params' table') := by
  obtain ⟨f, hf⟩ := h.exists_toFunction name
  obtain ⟨f', hf'⟩ := h'.exists_toFunction name'
  exact ⟨f, f', hf, hf', Level.exists_carries_of_sameBody h h' hf hf',
    fun ⟨_, hρ⟩ => hρ.sameBody h h' hf hf'⟩

namespace Example

/-- Reads two constants, defines a name twice, and gives its input back. The first constant has a
record of the level. -/
def weighted : Level where
  name := "weighted"
  inputs := ["x"]
  outputs := ["y", "x"]
  nodes := [⟨"sum", "Add", "", ["x", "c"], ["t"], [("bias", .float .zero)], none⟩,
    .plain "Mul" "product" ["t", "d"] ["t"], .plain "Add" "last" ["t", "x"] ["y"]]
  records := [⟨"c", [.fixed 1], .f32, .declared⟩, ⟨"x", [.named "n"], .f32, .declared⟩,
    ⟨"y", [.named "n"], .f32, .recovered⟩]
  functions := []

/-- The same level with other names, which sort in another order. -/
def reweighted : Level where
  name := "reweighted"
  inputs := ["z"]
  outputs := ["a", "z"]
  nodes := [⟨"first", "Add", "", ["z", "w"], ["b"], [("bias", .float Binary64.zero.neg)], none⟩,
    .plain "Mul" "second" ["b", "v"] ["b"], .plain "Add" "third" ["b", "z"] ["a"]]
  records := [⟨"a", [.named "n"], .f32, .recovered⟩, ⟨"w", [.fixed 1], .f32, .declared⟩,
    ⟨"z", [.named "n"], .f32, .declared⟩]
  functions := []

def weights : InitializerTable :=
  ⟨[⟨"c", .ones [1] .f32⟩, ⟨"d", .zeros [1] .f32⟩]⟩

def otherWeights : InitializerTable :=
  ⟨[⟨"v", .ones [1] .f32⟩, ⟨"w", .ones [1] .f32⟩]⟩

theorem closed_weighted : weighted.Closed ["c", "d"] weights where
  constants := by decide
  nodup := by decide
  reads := ⟨by decide, by decide, by decide, trivial⟩
  recorded := by decide

theorem closed_weighted_swapped : weighted.Closed ["d", "c"] weights where
  constants := by decide
  nodup := by decide
  reads := ⟨by decide, by decide, by decide, trivial⟩
  recorded := by decide

theorem closed_reweighted : reweighted.Closed ["w", "v"] otherWeights where
  constants := by decide
  nodup := by decide
  reads := ⟨by decide, by decide, by decide, trivial⟩
  recorded := by decide

/-- The other names. -/
def reweight (x : String) : String :=
  ([("x", "z"), ("c", "w"), ("d", "v"), ("t", "b"), ("y", "a")].lookup x).getD x

theorem carries_reweight :
    Level.Carries reweight weighted ["c", "d"] weights reweighted ["w", "v"] otherWeights where
  bijective := by
    have hmaps : ∀ x ∈ weighted.occurring ["c", "d"],
        reweight x ∈ reweighted.occurring ["w", "v"] := by decide
    have hinj : ∀ x ∈ weighted.occurring ["c", "d"], ∀ y ∈ weighted.occurring ["c", "d"],
        reweight x = reweight y → x = y := by decide
    have hsurj : ∀ y ∈ reweighted.occurring ["w", "v"], ∃ x ∈ weighted.occurring ["c", "d"],
        reweight x = y := by decide
    exact ⟨hmaps, fun x hx y hy => hinj x hx y hy, fun y hy => hsurj y hy⟩
  inputs := by decide
  passed := by decide
  tensors := by decide
  outputs := by decide
  nodes := .cons ⟨⟨rfl, rfl, by decide, rfl⟩, by decide, by decide⟩ <|
    .cons ⟨⟨rfl, rfl, rfl, rfl⟩, by decide, by decide⟩ <| .cons ⟨⟨rfl, rfl, rfl, rfl⟩, by decide,
      by decide⟩ .nil
  records := by decide

end Example

/-- Other names give the same body. With the parameters the other way round the body is another one,
since no map of names keeps the nodes and exchanges the parameters. -/
theorem sameBody_iff_exists_carries_weighted :
    (∃ f g, Example.weighted.toFunction "f" ["c", "d"] Example.weights = .ok f ∧
      Example.reweighted.toFunction "g" ["w", "v"] Example.otherWeights = .ok g ∧
      f.sameBody g = true) ∧
    ∃ f g, Example.weighted.toFunction "f" ["c", "d"] Example.weights = .ok f ∧
      Example.weighted.toFunction "g" ["d", "c"] Example.weights = .ok g ∧
      f.sameBody g = false := by
  constructor
  · obtain ⟨f, g, hf, hg, hiff⟩ :=
      sameBody_iff_exists_carries Example.closed_weighted Example.closed_reweighted "f" "g"
    exact ⟨f, g, hf, hg, hiff.2 ⟨_, Example.carries_reweight⟩⟩
  · obtain ⟨f, g, hf, hg, hiff⟩ :=
      sameBody_iff_exists_carries Example.closed_weighted Example.closed_weighted_swapped "f" "g"
    refine ⟨f, g, hf, hg, Bool.eq_false_iff.2 fun hsame => ?_⟩
    obtain ⟨ρ, hρ⟩ := hiff.1 hsame
    have hpassed : ["d", "c"] = ["c", "d"].map ρ := hρ.passed
    have hsum : ["x", "c"] = ["x", "c"].map ρ := by
      obtain ⟨n, hn, hcarries⟩ :=
        exists_of_forall₂ hρ.nodes (rfl : Example.weighted.nodes[0]? = some _)
      obtain rfl := Option.some.inj hn
      exact hcarries.inputs
    simp only [List.map_cons, List.map_nil, List.cons.injEq] at hpassed hsum
    exact absurd (hpassed.1.trans hsum.2.1.symm) (by decide)

end TensorGraph
