import TensorGraph.Proofs.ConstantOrder
import TensorGraph.Proofs.SameBodies
import TensorGraph.Proofs.TypingRules

/-!
# Levels of alike traces

The traces of a callable on given argument types differ at most in what their constants hold. Levels
that translate two such traces become functions with the same body exactly if calls at the same
places are of the same functions, and the constants that the levels read are in the same order
(`Level.Translates.sameBody_iff`). Parameters are numbered in the order of the names that constants
happen to have, so one order gives one body, and another order another one.
-/

namespace TensorGraph

/-- Two constants have tensors of one type. -/
def InitializerTable.SameType (table : InitializerTable) (x x' : String) : Prop :=
  (table.get? x').map (fun t => (t.dtype, t.dims)) = (table.get? x).map fun t => (t.dtype, t.dims)

section

variable {table : InitializerTable} {R : String → String → Prop} {ρ : Equiv.Perm String}
  {f : String → String}

/-- Names that stand for each other are exchanged by a map that exchanges the constants among
them. -/
theorem eq_map_of_stands {xs xs' : List String} (h : List.Forall₂ (Stands table R ρ) xs xs')
    (hρ : ∀ x ∈ table.names, ρ x = x) (hf : ∀ x, x ∉ table.names → f x = ρ x)
    (hconstants : xs'.filter table.contains = (xs.filter table.contains).map f) :
    xs' = xs.map f := by
  induction h with
  | nil => rfl
  | @cons x x' xs xs' hx _ ih =>
    have hiff := hx.mem_names_iff hρ
    rw [← InitializerTable.contains_iff, ← InitializerTable.contains_iff] at hiff
    by_cases hmem : x ∈ table.names
    · have hcontains := InitializerTable.contains_iff.2 hmem
      rw [List.filter_cons_of_pos (hiff.2 hcontains), List.filter_cons_of_pos hcontains,
        List.map_cons] at hconstants
      obtain ⟨rfl, hrest⟩ := List.cons.inj hconstants
      rw [List.map_cons, ih hrest]
    · have hcontains : ¬ table.contains x = true :=
        fun h => hmem (InitializerTable.contains_iff.1 h)
      rw [List.filter_cons_of_neg (hiff.not.2 hcontains), List.filter_cons_of_neg hcontains]
        at hconstants
      rw [List.map_cons, hf x hmem, ← hx.eq_of_not_mem hmem, ih hconstants]

/-- Nodes that read as many names each are read in the same way if they are all together. -/
theorem forall₂_inputs_eq {nodes nodes' : List Node}
    (h : List.Forall₂ (Node.Corresponds table R ρ) nodes nodes')
    (hall : nodes'.flatMap Node.inputs = (nodes.flatMap Node.inputs).map f) :
    List.Forall₂ (fun n n' => n'.inputs = n.inputs.map f) nodes nodes' := by
  induction h with
  | nil => exact .nil
  | @cons n n' nodes nodes' hn _ ih =>
    rw [List.flatMap_cons, List.flatMap_cons, List.map_append] at hall
    obtain ⟨hinputs, hrest⟩ := List.append_inj hall (by rw [List.length_map, hn.inputs.length_eq])
    exact .cons hinputs (ih hrest)

end

section

variable {program : Program} {settings : Params} {symbols : SymbolTable}
  {targets targets' : Targets} {σ : Shared} {names names' : Nat → Option String}
  {info info' : String → Option Info} {t t' : Trace} {l l' : Level}
  {body body' tail tail' : List Node} {decls decls' : List Declaration} {ρ : Equiv.Perm String}
  {f : String → String}

namespace Level.Translates

/-- The inputs of a finished level and the outputs of its nodes are no constants. -/
theorem own_not_mem (h : l.Translates program symbols targets σ names info t body tail decls)
    {x : String} (hx : x ∈ l.inputs ++ l.nodes.flatMap Node.outputs) : x ∉ σ.table.names :=
  h.translation.own_new x (h.nodes ▸ hx)

/-- A finished level can become a function whose parameters are the constants that it reads. -/
theorem closed (h : l.Translates program symbols targets σ names info t body tail decls)
    (htargets : targets.CaptureFrom σ.table) :
    l.Closed (l.referencedInitializers σ.table) σ.table where
  constants _ hx := (Level.mem_referencedInitializers.1 hx).2
  nodup := h.nodup_inputs_captured
  reads := h.readsFrom_captured htargets
  recorded _ hx := h.isSome_record?_output hx

/-- The constants that occur in a finished level are those that it reads. -/
theorem mem_constantReads_of_occurring
    (h : l.Translates program symbols targets σ names info t body tail decls) {x : String}
    (hx : x ∈ l.occurring (l.referencedInitializers σ.table)) (hmem : x ∈ σ.table.names) :
    x ∈ l.constantReads σ.table := by
  rcases Level.mem_occurring.1 hx with hx | hx | hx | ⟨n, hn, hx | hx⟩
  · exact absurd hmem (h.own_not_mem (List.mem_append_left _ hx))
  · exact Level.mem_constantReads.2 (Level.mem_referencedInitializers.1 hx)
  · exact absurd hmem (h.not_mem_names hx)
  · exact Level.mem_constantReads.2 ⟨List.mem_flatMap.2 ⟨n, hn, hx⟩, hmem⟩
  · exact absurd hmem (h.own_not_mem (List.mem_append_right _ (List.mem_flatMap.2 ⟨n, hn, hx⟩)))

end Level.Translates

/-! ## Constants in the same order -/

/-- A map that agrees with the permutation on the names of the levels' own and exchanges what they
read of the constants. -/
structure Level.Exchanges (table : InitializerTable) (ρ : Equiv.Perm String) (l l' : Level)
    (f : String → String) : Prop where
  own : ∀ x, x ∉ table.names → f x = ρ x
  constants : ∀ x ∈ l.constantReads table, f x ∈ table.names
  injective : ∀ x ∈ l.constantReads table, ∀ y ∈ l.constantReads table, f x = f y → x = y
  inputs : l'.nodes.flatMap Node.inputs = (l.nodes.flatMap Node.inputs).map f
  passed : l'.referencedInitializers table = (l.referencedInitializers table).map f

namespace Level.Exchanges

variable (hf : l.Exchanges σ.table ρ l' f)
  (h : l.Translates program symbols targets σ names info t body tail decls)

include hf h

theorem injOn_occurring (hρ : ∀ x ∈ σ.table.names, ρ x = x) :
    Set.InjOn f {x | x ∈ l.occurring (l.referencedInitializers σ.table)} := by
  have hconstant : ∀ x ∈ l.occurring (l.referencedInitializers σ.table), x ∈ σ.table.names →
      x ∈ l.constantReads σ.table :=
    fun x => h.mem_constantReads_of_occurring
  intro x hx y hy hxy
  by_cases hmem : x ∈ σ.table.names <;> by_cases hmem' : y ∈ σ.table.names
  · exact hf.injective x (hconstant x hx hmem) y (hconstant y hy hmem') hxy
  · rw [hf.own y hmem'] at hxy
    exact absurd ((mem_names_iff_of_fixed hρ).1 (hxy ▸ hf.constants x (hconstant x hx hmem))) hmem'
  · rw [hf.own x hmem] at hxy
    exact absurd ((mem_names_iff_of_fixed hρ).1 (hxy ▸ hf.constants y (hconstant y hy hmem'))) hmem
  · rw [hf.own x hmem, hf.own y hmem'] at hxy
    exact ρ.injective hxy

/-- The map exchanges what a level has of its own. -/
theorem map_eq {xs : List String} (hxs : ∀ x ∈ xs, x ∈ l.inputs ++ l.nodes.flatMap Node.outputs) :
    xs.map ρ = xs.map f :=
  List.map_congr_left fun x hx => (hf.own x (h.own_not_mem (hxs x hx))).symm

/-- Corresponding nodes are carried to each other. -/
theorem forall₂_carries {R : String → String → Prop} (hl : l.Corresponds σ.table R ρ l') :
    List.Forall₂ (Node.Carries f) l.nodes l'.nodes := by
  have hmem :
      List.Forall₂ (fun n n' => n ∈ l.nodes ∧ n.Corresponds σ.table R ρ n') l.nodes l'.nodes :=
    (List.forall₂_and_left _ _).2 ⟨fun _ => id, hl.nodes⟩
  refine List.Forall₂.mp (fun n n' hn hinputs => ⟨⟨?_, ?_, ?_, ?_⟩, hinputs, ?_⟩) hmem
    (forall₂_inputs_eq hl.nodes hf.inputs)
  · rw [hn.2.eq]
  · rw [hn.2.eq]
  · rw [hn.2.eq, h.unconfigured n hn.1]
    rfl
  · rw [hn.2.eq]
  · rw [hn.2.eq]
    exact hf.map_eq h fun x hx => List.mem_append_right _ (List.mem_flatMap.2 ⟨n, hn.1, hx⟩)

end Level.Exchanges

namespace Level.Corresponds

/-- Constants in the same order are exchanged by a map. -/
theorem exists_exchanges {table : InitializerTable} {R : String → String → Prop}
    (hl : l.Corresponds table R ρ l') (hρ : ∀ x ∈ table.names, ρ x = x)
    (horder : OrderedAlike (l.constantReads table) (l'.constantReads table)) :
    ∃ f, l.Exchanges table ρ l' f := by
  obtain ⟨g, hreads, hg⟩ := orderedAlike_iff_exists_map.1 horder
  let f := fun x => if x ∈ table.names then g x else ρ x
  have hf : ∀ x ∈ l.constantReads table, f x = g x := fun x hx => if_pos (mem_constantReads.1 hx).2
  have hreads' : l'.constantReads table = (l.constantReads table).map f :=
    hreads.trans (List.map_congr_left fun x hx => (hf x hx).symm)
  have hle : ∀ x ∈ l.constantReads table, ∀ y ∈ l.constantReads table,
      nameLe x y = nameLe (f x) (f y) :=
    fun x hx y hy => by rw [hf x hx, hf y hy, hg x hx y hy]
  have hown : ∀ x, x ∉ table.names → f x = ρ x := fun x hx => if_neg hx
  refine ⟨f, hown, fun x hx => ?_, fun x hx y hy => injOn_of_nameLe hle hx hy, ?_,
    referencedInitializers_eq_map hreads' hle⟩
  · have hmem : f x ∈ l'.constantReads table := hreads' ▸ List.mem_map_of_mem hx
    exact (mem_constantReads.1 hmem).2
  · exact eq_map_of_stands (List.rel_flatMap hl.nodes fun _ _ hn => hn.inputs) hρ hown hreads'

/-- Corresponding levels that read constants in the same order are carried to each other. -/
theorem exists_carries (hl : l.Corresponds σ.table σ.table.SameType ρ l')
    (hρ : ∀ x ∈ σ.table.names, ρ x = x)
    (h : l.Translates program symbols targets σ names info t body tail decls)
    (h' : l'.Translates program symbols targets' σ names' info' t' body' tail' decls')
    (horder : OrderedAlike (l.constantReads σ.table) (l'.constantReads σ.table)) :
    ∃ f, Carries f l (l.referencedInitializers σ.table) σ.table l'
      (l'.referencedInitializers σ.table) σ.table := by
  obtain ⟨f, hf⟩ := hl.exists_exchanges hρ horder
  have hinputs : l'.inputs = l.inputs.map f :=
    hl.inputs.trans (hf.map_eq h fun x hx => List.mem_append_left _ hx)
  have houtputs : l'.outputs = l.outputs.map f :=
    hl.outputs.trans (hf.map_eq h fun x hx => List.mem_append_right _ (h.outputs_spec.2 x hx))
  have hnodes := hf.forall₂_carries h hl
  have hoccurring : l'.occurring (l'.referencedInitializers σ.table) =
      (l.occurring (l.referencedInitializers σ.table)).map f := by
    have hmapped :
        List.Forall₂ (fun n n' => n.inputs.map f = n'.inputs.map id ∧
          n.outputs.map f = n'.outputs.map id) l.nodes l'.nodes := hnodes.imp fun n n' hn =>
          by simp [hn.inputs, hn.outputs]
    rw [occurring, occurring, hinputs, hf.passed, houtputs, List.map_append, List.map_append,
      List.map_append, map_names_eq_of_forall₂ hmapped, List.map_id]
  refine ⟨f, ⟨fun x hx => ?_, hf.injOn_occurring h hρ, fun y hy => ?_⟩, hinputs, hf.passed,
    fun x hx => ?_, houtputs, hnodes, fun x hx => ?_⟩
  · exact (hoccurring ▸ List.mem_map_of_mem hx : f x ∈
      l'.occurring (l'.referencedInitializers σ.table))
  · exact List.mem_map.1 (hoccurring ▸ hy)
  · obtain ⟨hread, hmem⟩ := mem_referencedInitializers.1 hx
    have hstands : List.Forall₂ (Stands σ.table σ.table.SameType ρ) (l.nodes.flatMap Node.inputs)
        ((l.nodes.flatMap Node.inputs).map f) := hf.inputs ▸ List.rel_flatMap hl.nodes fun _ _ hn =>
          hn.inputs
    rw [List.forall₂_map_right_iff, List.forall₂_same] at hstands
    exact (hstands x hread).elim (fun hconstant => hconstant.2.2) fun hown => absurd hmem hown.1
  · by_cases hmem : x ∈ σ.table.names
    · have hconstant := hf.constants x (h.mem_constantReads_of_occurring hx hmem)
      rw [h.info?_eq_none_of_mem_names hmem, h'.info?_eq_none_of_mem_names hconstant]
    · rw [hf.own x hmem, hl.info]

end Level.Corresponds

/-- A map that carries a level to another one keeps the order of the constants that the levels
read. -/
theorem Level.Carries.orderedAlike {table table' : InitializerTable}
    (hf : Carries f l (l.referencedInitializers table) table l' (l'.referencedInitializers table')
      table') :
    OrderedAlike (l.constantReads table) (l'.constantReads table') := by
  have hoccurs : ∀ x ∈ l.nodes.flatMap Node.inputs,
      x ∈ l.occurring (l.referencedInitializers table) := fun x hx => by
    obtain ⟨n, hn, hx⟩ := List.mem_flatMap.1 hx
    exact node_inputs_subset_occurring hn hx
  have hinputs := flatMap_inputs_eq_map (hf.nodes.imp fun _ _ hn => hn.inputs)
  have hreads : l'.constantReads table' = (l.constantReads table).map f := by
    rw [constantReads, hinputs, List.filter_map]
    refine congrArg (List.map f) (List.filter_congr fun x hx => Bool.eq_iff_iff.2 ?_)
    rw [Function.comp_apply, InitializerTable.contains_iff, InitializerTable.contains_iff]
    constructor
    · intro hmem
      have hpassed : f x ∈ l'.referencedInitializers table' :=
        mem_referencedInitializers.2 ⟨hinputs ▸ List.mem_map_of_mem hx, hmem⟩
      rw [hf.passed] at hpassed
      obtain ⟨y, hy, hxy⟩ := List.mem_map.1 hpassed
      obtain rfl := hf.bijective.injOn (params_subset_occurring hy) (hoccurs x hx) hxy
      exact (mem_referencedInitializers.1 hy).2
    · intro hmem
      have hpassed : f x ∈ l'.referencedInitializers table' :=
        hf.passed ▸ List.mem_map_of_mem (mem_referencedInitializers.2 ⟨hx, hmem⟩)
      exact (mem_referencedInitializers.1 hpassed).2
  have hmem : ∀ x ∈ l.constantReads table, x ∈ l.referencedInitializers table := fun x hx =>
    mem_referencedInitializers.2 (mem_constantReads.1 hx)
  refine orderedAlike_iff_exists_map.2 ⟨f, hreads, fun x hx y hy =>
    nameLe_eq_of_map (pairwise_referencedInitializers l table) ?_ (fun x hx y hy => ?_) (hmem x hx)
      (hmem y hy)⟩
  · exact hf.passed ▸ pairwise_referencedInitializers l' table'
  · exact hf.bijective.injOn (params_subset_occurring hx) (params_subset_occurring hy)

/-! ## Bodies of alike traces -/

/-- Functions of one name are passed constants of the same types, and their outputs have the same
records. -/
theorem Implements.correspond (hσ : σ.Sound program settings symbols) :
    Targets.Correspond σ.table.SameType
      (Implements program settings symbols σ) (Implements program settings symbols σ) := by
  intro i ts g g' h h' hname
  have hfunction : g.function = g'.function :=
    List.inj_on_of_nodup_map hσ.functions_nodup h.member h'.member hname
  have hself := hσ.sameBody_self h.member
  cases h with
  | @intro _ _ _ _ _ _ l _ _ _ _ _ _ _ f known trace inner translates
    function same member captured infos =>
    cases h' with
    | @intro _ _ _ _ _ _ l' _ _ _ _ _ _ _ f' known' trace' inner' translates'
      function' same' member' captured' infos' =>
      rw [captured] at function
      rw [captured'] at function'
      have hsame : f.sameBody f' = true := by
        rw [← hself]
        nth_rewrite 2 [hfunction]
        rw [same, same']
        rfl
      obtain ⟨ρ, hρ⟩ :=
        Level.exists_carries_of_sameBody (translates.closed (captureFrom_of_inner inner))
          (translates'.closed (captureFrom_of_inner inner')) function function' hsame
      constructor
      · rw [captured, captured', hρ.passed, List.forall₂_map_right_iff, List.forall₂_same]
        exact hρ.tensors
      · rw [infos, infos', hρ.outputs, List.map_map]
        exact List.map_congr_left fun x hx =>
          (hρ.records x (Level.outputs_subset_occurring hx)).symm

theorem Tensor.eq_of_type_eq {value value' : Tensor} (h : value.type = value'.type) :
    (value.dtype, value.dims) = (value'.dtype, value'.dims) := by
  simp only [Tensor.type, AbstractValue.known, AbstractValue.mk.injEq] at h
  rw [h.2, List.map_injective_iff.2 (fun _ _ => Dim.known.inj) h.1]

/-- Constants of alike traces have the same types. -/
theorem Trace.Alike.corresponds (h : t.Alike t')
    (hconstants : t.constants.map Prod.fst = t'.constants.map Prod.fst)
    (hnodup : σ.table.names.Nodup) (htyped : ∀ c ∈ t.constants, c.1.type = c.2.type)
    (htyped' : ∀ c ∈ t'.constants, c.1.type = c.2.type) :
    t.Corresponds σ.table σ.table.SameType t' where
  inputs := h.inputs
  constants := by
    have hvars : List.Forall₂ Eq (t.constants.map Prod.fst) (t'.constants.map Prod.fst) := by
      rw [List.forall₂_eq_eq_eq]
      exact hconstants
    rw [List.forall₂_map_left_iff, List.forall₂_map_right_iff] at hvars
    refine List.forall₂_iff_zip.2 ⟨hvars.length_eq, fun {c c'} hmem => ?_⟩
    obtain ⟨hc, hc'⟩ := List.of_mem_zip hmem
    have hvar := (List.forall₂_iff_zip.1 hvars).2 hmem
    refine ⟨hvar, fun x x' hx hx' => ?_⟩
    rw [InitializerTable.SameType,
      InitializerTable.get?_of_mem hnodup (InitializerTable.mem_of_find? hx),
      InitializerTable.get?_of_mem hnodup (InitializerTable.mem_of_find? hx')]
    exact congrArg some (Tensor.eq_of_type_eq (by rw [← htyped c hc, ← htyped' c' hc', hvar]))
  equations := h.equations
  outputs := h.outputs

namespace Level.Translates

/-- The node of an equation has the equation's place. -/
theorem getElem?_nodes (h : l.Translates program symbols targets σ names info t body tail decls)
    {i : Nat} {e : Equation} (he : t.equations[i]? = some e) : l.nodes[i]? = body[i]? := by
  obtain ⟨n, hn, -⟩ := exists_of_forall₂ h.translation.emits he
  rw [h.nodes, List.getElem?_append_left (List.getElem?_eq_some_iff.1 hn).1]

/-- Levels that translate traces with constants of the same types become functions with the same
body exactly if calls at the same places are of the same functions and the constants that are read
are in the same order. -/
theorem sameBody_iff
    (h : l.Translates program symbols (Implements program settings symbols σ) σ names info t body
      tail decls)
    (h' : l'.Translates program symbols (Implements program settings symbols σ) σ names' info' t'
      body' tail' decls') (hσ : σ.Sound program settings symbols)
    (ht : t.Corresponds σ.table σ.table.SameType t') {name name' : String} {f f' : Function}
    (hf : l.toFunction name (l.referencedInitializers σ.table) σ.table = .ok f)
    (hf' : l'.toFunction name' (l'.referencedInitializers σ.table) σ.table = .ok f') :
    f.sameBody f' = true ↔
      (∀ (i : Nat) e index, t.equations[i]? = some e → e.callee? = some index →
        l.nodes[i]?.map Node.opType = l'.nodes[i]?.map Node.opType) ∧
      OrderedAlike (l.constantReads σ.table) (l'.constantReads σ.table) := by
  have hclosed := h.closed Implements.captureFrom
  have hclosed' := h'.closed Implements.captureFrom
  have hrefl : ∀ x, σ.table.SameType x x := fun x => rfl
  constructor
  · intro hsame
    obtain ⟨ρ, hρ⟩ := Level.exists_carries_of_sameBody hclosed hclosed' hf hf' hsame
    have hops : List.Forall₂ Eq (l.nodes.map Node.opType) (l'.nodes.map Node.opType) := by
      rw [List.forall₂_map_left_iff, List.forall₂_map_right_iff]
      exact hρ.nodes.imp fun _ _ hn => hn.operation.opType
    rw [List.forall₂_eq_eq_eq] at hops
    exact ⟨fun i _ _ _ _ => by rw [← List.getElem?_map, hops, List.getElem?_map], hρ.orderedAlike⟩
  · rintro ⟨hops, horder⟩
    obtain ⟨ρ, hρ, hl⟩ :=
      h.exists_corresponds h' hrefl ht Implements.captureFrom Implements.captureFrom
        (Implements.correspond hσ) fun i e index he hcallee => by
        rw [← h.getElem?_nodes he, ← h'.getElem?_nodes (ht.equations ▸ he)]
        exact hops i e index he hcallee
    obtain ⟨f, hcarries⟩ := hl.exists_carries hρ h h' horder
    exact hcarries.sameBody hclosed hclosed' hf hf'

end Level.Translates

end

end TensorGraph
