import Mathlib.Data.String.Basic
import Mathlib.Logic.Equiv.Basic
import TensorGraph.Proofs.LocalNames
import TensorGraph.Proofs.Translation

/-!
# Levels with other names

The function of a level does not depend on the names that the level uses : if one level is another
with its names exchanged by a permutation (`Level.Matches`), and the constants that both pass on
keep theirs, the two become functions with the same body (`Level.Matches.functionWith_eq`). The
local names match at every step of the renaming, and the records of a function are sorted by local
names, which all differ.
-/

namespace TensorGraph

theorem exists_not_mem (names : List String) : ∃ x, x ∉ names :=
  ⟨_, (NamePool.issues_fresh ⟨names, [], []⟩ "s").free⟩

/-! ## Sorted keys -/

namespace Keyed

variable {α : Type} {key k : String} {value v : α} {pairs : List (String × α)}

/-- The keys ascend. -/
def Sorted (pairs : List (String × α)) : Prop :=
  pairs.Pairwise fun a b => a.1 < b.1

theorem mem_of_mem_set {p : String × α} (h : p ∈ set key value pairs) :
    p = (key, value) ∨ p ∈ pairs := by
  induction pairs with
  | nil => exact Or.inl (by simpa [set] using h)
  | cons q rest ih =>
    obtain ⟨k, v⟩ := q
    simp only [set] at h
    split_ifs at h
    · exact (List.mem_cons.1 h).imp_right (List.mem_cons_of_mem _)
    · exact List.mem_cons.1 h
    · rcases List.mem_cons.1 h with rfl | h
      · exact Or.inr List.mem_cons_self
      · exact (ih h).imp_right (List.mem_cons_of_mem _)

theorem Sorted.set (h : Sorted pairs) : Sorted (set key value pairs) := by
  induction pairs with
  | nil => exact List.pairwise_singleton _ _
  | cons q rest ih =>
    obtain ⟨k, v⟩ := q
    obtain ⟨hk, hrest⟩ := List.pairwise_cons.1 h
    simp only [Keyed.set]
    split_ifs with heq hlt
    · obtain rfl : key = k := by simpa using heq
      exact List.pairwise_cons.2 ⟨hk, hrest⟩
    · refine List.pairwise_cons.2 ⟨fun p hp => ?_, h⟩
      rcases List.mem_cons.1 hp with rfl | hp
      · exact hlt
      · exact hlt.trans (hk p hp)
    · refine List.pairwise_cons.2 ⟨fun p hp => ?_, ih hrest⟩
      rcases mem_of_mem_set hp with rfl | hp
      · exact lt_of_le_of_ne (not_lt.1 hlt) fun hkey => heq (beq_iff_eq.2 hkey.symm)
      · exact hk p hp

/-- In a sorted list a pair is found by its key. -/
theorem Sorted.mem_iff (h : Sorted pairs) : (k, v) ∈ pairs ↔ pairs.lookup k = some v := by
  induction pairs with
  | nil => simp
  | cons q rest ih =>
    obtain ⟨k', v'⟩ := q
    obtain ⟨hk, hrest⟩ := List.pairwise_cons.1 h
    by_cases heq : k = k'
    · subst heq
      have hnot : (k, v) ∉ rest := fun hmem => lt_irrefl k (hk (k, v) hmem)
      simp [hnot, eq_comm]
    · have hbeq : (k == k') = false := by simpa using heq
      simp [List.lookup_cons, hbeq, heq, ih hrest]

end Keyed

/-! ## Renamings of exchanged names -/

namespace Renaming

variable {ρ : Equiv.Perm String} {r r' : Renaming}

/-- Two renamings, in the order of their names, give exchanged names the same local names. -/
structure Matches (ρ : Equiv.Perm String) (r r' : Renaming) : Prop where
  lookup : ∀ x, r'.lookup (ρ x) = r.lookup x
  left : Keyed.Sorted r
  right : Keyed.Sorted r'

theorem Matches.nil (ρ : Equiv.Perm String) : Matches ρ [] [] :=
  ⟨fun _ => rfl, .nil, .nil⟩

theorem Matches.apply_eq (h : r.Matches ρ r') {x : String} (hx : (r.lookup x).isSome) :
    r'.apply (ρ x) = r.apply x := by
  obtain ⟨n, hn⟩ := Option.isSome_iff_exists.1 hx
  rw [apply_of_lookup hn, apply_of_lookup ((h.lookup x).trans hn)]

theorem Matches.set (h : r.Matches ρ r') (x : String) (n : LocalName) :
    (r.set x n).Matches ρ (r'.set (ρ x) n) where
  lookup y := by simp only [lookup_set, ρ.injective.eq_iff, h.lookup y]
  left := h.left.set
  right := h.right.set

theorem Matches.setNew (h : r.Matches ρ r') (x : String) (n : LocalName) :
    (r.setNew x n).Matches ρ (r'.setNew (ρ x) n) := by
  unfold Renaming.setNew
  rw [h.lookup x]
  cases r.lookup x with
  | some m => exact h
  | none => exact h.set x n

/-- Steps that keep renamings matching do so when they are taken for all names of a list. -/
theorem Matches.foldl {f : Renaming → String × Nat → Renaming}
    (hf : ∀ r r' x i, Matches ρ r r' → Matches ρ (f r (x, i)) (f r' (ρ x, i))) (names : List String)
    (k : Nat) (h : r.Matches ρ r') :
    Matches ρ ((names.zipIdx k).foldl f r) (((names.map ρ).zipIdx k).foldl f r') := by
  induction names generalizing r r' k with
  | nil => exact h
  | cons name rest ih =>
    rw [List.map_cons, List.zipIdx_cons, List.zipIdx_cons]
    exact ih (k + 1) (hf r r' name k h)

theorem Matches.setAll (h : r.Matches ρ r') (f : Nat → LocalName) (names : List String) :
    (r.setAll f names).Matches ρ (r'.setAll f (names.map ρ)) :=
  Matches.foldl (fun _ _ x i h => h.set x (f i)) names 0 h

theorem Matches.setAllNew (h : r.Matches ρ r') (f : Nat → LocalName) (names : List String) :
    (r.setAllNew f names).Matches ρ (r'.setAllNew f (names.map ρ)) :=
  Matches.foldl (fun _ _ x i h => h.setNew x (f i)) names 0 h

theorem Matches.addTemporaries (h : r.Matches ρ r') (next : Nat) (names : List String) :
    (r.addTemporaries next names).1.Matches ρ (r'.addTemporaries next (names.map ρ)).1 ∧
      (r'.addTemporaries next (names.map ρ)).2 = (r.addTemporaries next names).2 := by
  induction names generalizing r r' next with
  | nil => exact ⟨h, rfl⟩
  | cons name rest ih =>
    rw [List.map_cons, Renaming.addTemporaries, Renaming.addTemporaries, h.lookup name]
    cases r.lookup name with
    | some m => exact ih h next
    | none => exact ih (h.set name (.temporary next)) (next + 1)

end Renaming

/-! ## Nodes with exchanged names -/

/-- A node is another one with its names exchanged, whatever the nodes themselves are called. -/
def Node.Matches (ρ : Equiv.Perm String) (n n' : Node) : Prop :=
  n' = { n with name := n'.name, inputs := n.inputs.map ρ, outputs := n.outputs.map ρ }

namespace Renaming.Matches

variable {ρ : Equiv.Perm String} {r r' : Renaming}

theorem renameNodes (h : r.Matches ρ r') (next index : Nat) {nodes nodes' : List Node}
    (hnodes : List.Forall₂ (fun n n' => n'.outputs = n.outputs.map ρ) nodes nodes') :
    (r.renameNodes next index nodes).1.Matches ρ (r'.renameNodes next index nodes').1 := by
  induction hnodes generalizing r r' next index with
  | nil => exact h
  | @cons n n' nodes nodes' houtputs _ ih =>
    obtain ⟨hmatches, hnext⟩ := h.addTemporaries next n.outputs
    simp only [Renaming.renameNodes, houtputs, hnext]
    exact ih hmatches _ (index + 1)

theorem map_apply_eq (h : r.Matches ρ r') {names : List String}
    (hnames : ∀ x ∈ names, (r.lookup x).isSome) :
    (names.map ρ).map r'.apply = names.map r.apply := by
  rw [List.map_map]
  exact List.map_congr_left fun x hx => h.apply_eq (hnames x hx)

theorem localized_eq (h : r.Matches ρ r') {n n' : Node} (hn : n.Matches ρ n')
    (hnamed : ∀ x ∈ n.inputs ++ n.outputs, (r.lookup x).isSome) (index : Nat) :
    n'.localized r' index = n.localized r index := by
  rw [hn]
  simp only [Node.localized, Node.mk.injEq, true_and, and_true]
  exact ⟨h.map_apply_eq fun x hx => hnamed x (List.mem_append_left _ hx),
    h.map_apply_eq fun x hx => hnamed x (List.mem_append_right _ hx)⟩

theorem map_localized_eq (h : r.Matches ρ r') {nodes nodes' : List Node}
    (hnodes : List.Forall₂ (Node.Matches ρ) nodes nodes')
    (hnamed : ∀ n ∈ nodes, ∀ x ∈ n.inputs ++ n.outputs, (r.lookup x).isSome) (k : Nat) :
    ((nodes'.zipIdx k).map fun p => p.1.localized r' p.2) = (nodes.zipIdx k).map fun p =>
      p.1.localized r p.2 := by
  induction hnodes generalizing k with
  | nil => rfl
  | @cons n n' nodes nodes' hn _ ih =>
    rw [List.zipIdx_cons, List.zipIdx_cons, List.map_cons, List.map_cons,
      h.localized_eq hn (hnamed n List.mem_cons_self),
      ih (fun m hm => hnamed m (List.mem_cons_of_mem _ hm))]

end Renaming.Matches

/-! ## The order of local names -/

namespace LocalName

variable {m n k : LocalName}

theorem le_iff : m.le n = true ↔ m.key.1 < n.key.1 ∨ m.key.1 = n.key.1 ∧ m.key.2 ≤ n.key.2 := by
  simp [le]

theorem le_trans (h : m.le n = true) (h' : n.le k = true) : m.le k = true := by
  rw [le_iff] at h h' ⊢
  omega

theorem le_refl (n : LocalName) : n.le n = true :=
  le_iff.2 (Or.inr ⟨rfl, Nat.le_refl _⟩)

theorem le_total (m n : LocalName) : (m.le n || n.le m) = true := by
  rw [Bool.or_eq_true, le_iff, le_iff]
  omega

theorem le_antisymm (h : m.le n = true) (h' : n.le m = true) : m = n := by
  rw [le_iff] at h h'
  have hfst : m.key.1 = n.key.1 := by omega
  have hsnd : m.key.2 = n.key.2 := by omega
  cases m <;> cases n <;> simp_all [key]

end LocalName

theorem pairwise_mergeSort_localName (records : List (LocalName × ValueRecord)) :
    (records.mergeSort fun a b => a.1.le b.1).Pairwise fun a b => a.1.le b.1 = true :=
  List.pairwise_mergeSort (fun a b c => @LocalName.le_trans a.1 b.1 c.1)
    (fun a b => LocalName.le_total a.1 b.1) records

/-- Sorting by local names forgets the order of records whose local names differ. -/
theorem mergeSort_eq_of_perm {records records' : List (LocalName × ValueRecord)}
    (h : records.Perm records') (hnodup : (records.map Prod.fst).Nodup) :
    (records.mergeSort fun a b => a.1.le b.1) = records'.mergeSort fun a b => a.1.le b.1 := by
  have hperm := ((records.mergeSort_perm fun a b => a.1.le b.1).trans h).trans
    (records'.mergeSort_perm fun a b => a.1.le b.1).symm
  refine List.Perm.eq_of_pairwise (fun a b ha hb hab hba => ?_)
    (pairwise_mergeSort_localName records) (pairwise_mergeSort_localName records') hperm
  rw [List.mem_mergeSort] at ha hb
  exact List.inj_on_of_nodup_map hnodup ha (h.mem_iff.2 hb) (LocalName.le_antisymm hab hba)

/-! ## Levels with exchanged names -/

namespace Level

variable {ρ : Equiv.Perm String} {l l' : Level} {r r' : Renaming} {params : List String}

/-- A level is another one with its names exchanged. -/
structure Matches (ρ : Equiv.Perm String) (l l' : Level) : Prop where
  inputs : l'.inputs = l.inputs.map ρ
  outputs : l'.outputs = l.outputs.map ρ
  nodes : List.Forall₂ (Node.Matches ρ) l.nodes l'.nodes
  info : ∀ x, l'.info? (ρ x) = l.info? x

theorem mem_renamedRecords (hsorted : Keyed.Sorted r) {n : LocalName} {s : ValueRecord} :
    (n, s) ∈ l.renamedRecords r ↔ s.name = n.text ∧ ∃ x, r.lookup x = some n ∧
      l.info? x = some s.info := by
  simp only [renamedRecords, List.mem_filterMap, Option.map_eq_some_iff, Prod.mk.injEq, Prod.exists,
    info?]
  constructor
  · rintro ⟨x, m, hmem, record, hrecord, rfl, rfl⟩
    exact ⟨rfl, x, hsorted.mem_iff.1 hmem, record, hrecord, rfl⟩
  · rintro ⟨hname, x, hx, record, hrecord, hinfo⟩
    refine ⟨x, n, hsorted.mem_iff.2 hx, record, hrecord, rfl, ?_⟩
    obtain ⟨name, shape, dtype, provenance⟩ := s
    obtain ⟨rfl, rfl, rfl⟩ := Info.mk.inj hinfo
    exact congrArg (ValueRecord.mk · _ _ _) hname.symm

theorem nodup_renamedRecords (hsorted : Keyed.Sorted r) (hinj : r.Injective) (l : Level) :
    ((l.renamedRecords r).map Prod.fst).Nodup := by
  rw [List.Nodup, List.pairwise_map, renamedRecords, List.pairwise_filterMap]
  refine List.Pairwise.imp_of_mem (fun {a b} ha hb hab p hp q hq heq => ?_) hsorted
  obtain ⟨s, -, rfl⟩ := Option.map_eq_some_iff.1 hp
  obtain ⟨s', -, rfl⟩ := Option.map_eq_some_iff.1 hq
  have hlocal : a.2 = b.2 := heq
  have hname := hinj a.1 b.1 a.2 (hsorted.mem_iff.1 ha) (hlocal ▸ hsorted.mem_iff.1 hb)
  exact lt_irrefl _ (hname ▸ hab)

/-- The records of parameters are numbered from `k` on. -/
theorem map_fst_paramRecords {table : InitializerTable} {k : Nat}
    {records : List (LocalName × ValueRecord)} (h : paramRecords table k params = .ok records) :
    records.map Prod.fst = (List.range' k params.length).map .param := by
  induction params generalizing k records with
  | nil =>
    obtain rfl : [] = records := by simpa [paramRecords] using h
    rfl
  | cons param rest ih =>
    obtain ⟨tensor, others, -, hrest, rfl⟩ := paramRecords_cons_eq_ok.1 h
    rw [List.map_cons, ih hrest, List.length_cons, List.range'_succ, List.map_cons]

theorem name_of_mem_paramRecords {table : InitializerTable} {k : Nat}
    {records : List (LocalName × ValueRecord)} (h : paramRecords table k params = .ok records) :
    ∀ p ∈ records, p.2.name = p.1.text := by
  induction params generalizing k records with
  | nil =>
    obtain rfl : [] = records := by simpa [paramRecords] using h
    simp
  | cons param rest ih =>
    obtain ⟨tensor, others, -, hrest, rfl⟩ := paramRecords_cons_eq_ok.1 h
    exact List.forall_mem_cons.2 ⟨rfl, ih hrest⟩

/-- Exchanged names have the same local names. -/
theorem matches_localNames (hinputs : l'.inputs = l.inputs.map ρ)
    (houtputs : l'.outputs = l.outputs.map ρ)
    (hnodes : List.Forall₂ (fun n n' => n'.outputs = n.outputs.map ρ) l.nodes l'.nodes)
    (params : List String) :
    (l.localNames params).Matches ρ (l'.localNames (params.map ρ)) := by
  have hinterface : (l.interfaceNames params).Matches ρ (l'.interfaceNames (params.map ρ)) := by
    have := (((Renaming.Matches.nil ρ).setAll .input l.inputs).setAll .param params).setAllNew
      .output l.outputs
    rwa [← hinputs, ← houtputs] at this
  exact hinterface.renameNodes 0 0 hnodes

theorem sorted_localNames (l : Level) (params : List String) : Keyed.Sorted (l.localNames params) :=
  (@matches_localNames (Equiv.refl String) l l (by simp) (by simp) (List.forall₂_same.2 fun n _ =>
    by simp) params).left

namespace Matches

theorem localNames (h : l.Matches ρ l') (params : List String) :
    (l.localNames params).Matches ρ (l'.localNames (params.map ρ)) :=
  matches_localNames h.inputs h.outputs (h.nodes.imp fun _ _ hn => by rw [hn]) params

theorem renamedRecords_perm (h : l.Matches ρ l') (hr : r.Matches ρ r') (hinj : r.Injective)
    (hinj' : r'.Injective) :
    (l.renamedRecords r).Perm (l'.renamedRecords r') := by
  refine (List.perm_ext_iff_of_nodup (nodup_renamedRecords hr.left hinj l).of_map
    (nodup_renamedRecords hr.right hinj' l').of_map).2 fun ⟨n, s⟩ => ?_
  rw [mem_renamedRecords hr.left, mem_renamedRecords hr.right]
  refine and_congr_right fun _ => ⟨?_, ?_⟩
  · rintro ⟨x, hx, hinfo⟩
    exact ⟨ρ x, (hr.lookup x).trans hx, (h.info x).trans hinfo⟩
  · rintro ⟨y, hy, hinfo⟩
    obtain ⟨x, rfl⟩ := ρ.surjective y
    exact ⟨x, (hr.lookup x).symm.trans hy, (h.info x).symm.trans hinfo⟩

end Matches

/-- Parameters without records in the level share no local names with the recorded names. -/
theorem nodup_records (hnodup : (l.inputs ++ params).Nodup)
    (hreads : ReadsFrom (l.inputs ++ params) l.nodes) (hsorted : Keyed.Sorted (l.localNames params))
    {table : InitializerTable} {records : List (LocalName × ValueRecord)}
    (hrecords : paramRecords table 0 params = .ok records)
    (hnone : ∀ x ∈ params, l.info? x = none) :
    ((records ++ l.renamedRecords (l.localNames params)).map Prod.fst).Nodup := by
  obtain ⟨-, -, -, hparam, -⟩ := interfaceNames_spec hnodup
  obtain ⟨hext, hinj, -⟩ := localNames_spec hnodup hreads
  rw [List.map_append, map_fst_paramRecords hrecords]
  refine List.nodup_append.2 ⟨(List.nodup_range').map fun _ _ => LocalName.param.inj,
    nodup_renamedRecords hsorted hinj l, ?_⟩
  rintro n hn _ hmem rfl
  obtain ⟨i, hi, rfl⟩ := List.mem_map.1 hn
  obtain ⟨⟨_, s⟩, hs, rfl⟩ := List.mem_map.1 hmem
  obtain ⟨-, x, hx, hinfo⟩ := (mem_renamedRecords hsorted).1 hs
  have hlt : i < params.length := by simpa using hi
  have hlookup := hext _ _ (hparam i params[i] (List.getElem?_eq_getElem hlt))
  rw [hinj x params[i] _ hx hlookup, hnone _ (List.getElem_mem hlt)] at hinfo
  cases hinfo

/-- Levels with exchanged names become the same function, if parameters keep their names and have no
records. -/
theorem Matches.functionWith_eq (h : l.Matches ρ l') (hparams : params.map ρ = params)
    (hnodup : (l.inputs ++ params).Nodup) (hnodup' : (l'.inputs ++ params).Nodup)
    (hreads : ReadsFrom (l.inputs ++ params) l.nodes)
    (hreads' : ReadsFrom (l'.inputs ++ params) l'.nodes) {table : InitializerTable}
    {records : List (LocalName × ValueRecord)}
    (hrecords : paramRecords table 0 params = .ok records) (hnone : ∀ x ∈ params, l.info? x = none)
    (name : String) :
    l'.functionWith name params records = l.functionWith name params records := by
  have hnames := h.localNames params
  rw [hparams] at hnames
  have hlocal := localizes_functionWith hnodup hreads name records
  have hlocal' := localizes_functionWith hnodup' hreads' name records
  have hsorted :
      ((records ++ l'.renamedRecords (l'.localNames params)).mergeSort fun a b => a.1.le b.1) =
        (records ++ l.renamedRecords (l.localNames params)).mergeSort fun a b => a.1.le b.1 :=
    (mergeSort_eq_of_perm
      ((h.renamedRecords_perm hnames hlocal.injective hlocal'.injective).append_left records)
      (nodup_records hnodup hreads hnames.left hrecords hnone)).symm
  have houtputs :
      (l'.functionWith name params records).outputs =
        (l.functionWith name params records).outputs := by
    rw [hlocal.outputs, hlocal'.outputs, h.outputs]
    exact hnames.map_apply_eq fun x hx => hlocal.named x (List.mem_append_right _ hx)
  have hnodes :
      (l'.functionWith name params records).nodes = (l.functionWith name params records).nodes := by
    rw [hlocal.nodes, hlocal'.nodes]
    refine hnames.map_localized_eq h.nodes
      (fun n hn x hx => hlocal.named x (List.mem_append_left _ ?_)) 0
    rcases List.mem_append.1 hx with hx | hx
    · exact hreads.mem_of_mem_inputs hn hx
    · exact List.mem_append_right _ (List.mem_flatMap.2 ⟨n, hn, hx⟩)
  have hlength : l'.inputs.length = l.inputs.length := by rw [h.inputs, List.length_map]
  rw [functionWith, functionWith, Function.mk.injEq]
  exact ⟨rfl, rfl, by rw [hlength], rfl, houtputs, hnodes, congrArg _ hsorted⟩

end Level

end TensorGraph
