import Mathlib.Logic.Function.Basic
import TensorGraph.Proofs.FunctionTable
import TensorGraph.Proofs.RenamedLevels

/-!
# One function for each callable and argument types

Two levels that translate traces with the same variables and equations differ only by their names
(`Level.Translates.exists_corresponds`) : a permutation exchanges the inputs and the outputs of
equations in order, and every identity node of an output adds one more pair. Where one level reads a
constant, so does the other. If it is the same constant everywhere, the levels become functions with
one body, and since the table keeps no body twice, a callable is implemented by one function on
given argument types (`Implements.unique`).
-/

namespace TensorGraph

/-! ## Exchanging more names -/

/-- A permutation can be changed to exchange two more names, without changing what it does to
others. -/
theorem exists_perm_extend (ρ : Equiv.Perm String) {seen : List String} {x y : String}
    (hx : x ∉ seen) (hy : y ∉ seen.map ρ) :
    ∃ ρ' : Equiv.Perm String, ρ' x = y ∧ ∀ z ∈ seen, ρ' z = ρ z := by
  refine ⟨ρ.trans (Equiv.swap (ρ x) y), by simp, fun z hz => ?_⟩
  have hzx : ρ z ≠ ρ x := fun h => hx (ρ.injective h ▸ hz)
  have hzy : ρ z ≠ y := fun h => hy (h ▸ List.mem_map_of_mem hz)
  exact Equiv.swap_apply_of_ne_of_ne hzx hzy

/-- Lists of different names can be exchanged in order, while the names `fixed` stay. -/
theorem exists_perm_of_nodup {fixed xs ys : List String} (hlength : xs.length = ys.length)
    (hxs : xs.Nodup) (hys : ys.Nodup) (hxfixed : ∀ x ∈ xs, x ∉ fixed)
    (hyfixed : ∀ y ∈ ys, y ∉ fixed) :
    ∃ ρ : Equiv.Perm String, xs.map ρ = ys ∧ ∀ z ∈ fixed, ρ z = z := by
  induction xs generalizing ys with
  | nil => exact ⟨Equiv.refl String, (List.length_eq_zero_iff.1 hlength.symm).symm, fun _ _ => rfl⟩
  | cons x xs ih =>
    cases ys with
    | nil => simp at hlength
    | cons y ys =>
      rw [List.nodup_cons] at hxs hys
      rw [List.forall_mem_cons] at hxfixed hyfixed
      obtain ⟨ρ, hρ, hfixed⟩ := ih (Nat.succ.inj hlength) hxs.2 hys.2 hxfixed.2 hyfixed.2
      have hx : x ∉ fixed ++ xs := by simp [hxfixed.1, hxs.1]
      have hy : y ∉ (fixed ++ xs).map ρ := by
        have hmap : fixed.map ρ = fixed := by simpa using List.map_congr_left hfixed
        rw [List.map_append, hρ, hmap]
        simp [hyfixed.1, hys.1]
      obtain ⟨ρ', hxy, hkept⟩ := exists_perm_extend ρ hx hy
      refine ⟨ρ', ?_, fun z hz => (hkept z (List.mem_append_left _ hz)).trans (hfixed z hz)⟩
      rw [List.map_cons, hxy, List.map_congr_left fun z hz => hkept z (List.mem_append_right _ hz),
        hρ]

/-! ## Names of variables -/

theorem eq_map_of_map_eq_map_some {α : Type} {ρ : String → String} {f g : α → Option String}
    {as : List α} {xs ys : List String} (hf : as.map f = xs.map some) (hg : as.map g = ys.map some)
    (h : ∀ a ∈ as, g a = (f a).map ρ) : ys = xs.map ρ := by
  have hmap : as.map g = (as.map f).map (Option.map ρ) := by
    rw [List.map_map]
    exact List.map_congr_left h
  rw [hg, hf, List.map_map] at hmap
  exact (Option.some_injective String).list_map (by simpa using hmap)

theorem eq_option_map_of_map_eq {α : Type} {ρ : String → String} {f g : α → Option String}
    {as : List α} {xs : List String} (hf : as.map f = xs.map some)
    (hg : as.map g = (xs.map ρ).map some) {a : α} (ha : a ∈ as) :
    g a = (f a).map ρ := by
  have hmap : as.map g = as.map (Option.map ρ ∘ f) := by
    rw [hg, ← List.map_map, hf]
    simp
  exact List.map_inj_left.1 hmap a ha

theorem length_eq_of_map_eq {α : Type} {f g : α → Option String} {as : List α} {xs ys : List String}
    (hf : as.map f = xs.map some) (hg : as.map g = ys.map some) : xs.length = ys.length := by
  have hx : as.length = xs.length := by simpa using congrArg List.length hf
  have hy : as.length = ys.length := by simpa using congrArg List.length hg
  exact hx.symm.trans hy

theorem forall₂_of_map_eq_map_some {α : Type} {S : String → String → Prop} {f g : α → Option String}
    {as : List α} {xs ys : List String} (hf : as.map f = xs.map some) (hg : as.map g = ys.map some)
    (h : ∀ a ∈ as, ∀ x y, f a = some x → g a = some y → S x y) : List.Forall₂ S xs ys := by
  induction as generalizing xs ys with
  | nil =>
    rw [List.map_nil, eq_comm, List.map_eq_nil_iff] at hf hg
    rw [hf, hg]
    exact .nil
  | cons a as ih =>
    cases xs with
    | nil => simp at hf
    | cons x xs =>
      cases ys with
      | nil => simp at hg
      | cons y ys =>
        rw [List.forall_mem_cons] at h
        simp only [List.map_cons, List.cons.injEq] at hf hg
        exact .cons (h.1 x y hf.1 hg.1) (ih hf.2 hg.2 h.2)

/-! ## Correspondence -/

section

variable (table : InitializerTable) (R : String → String → Prop) (ρ : Equiv.Perm String)

/-- A name stands for another one in another level : both are constants, which `R` relates, or a
permutation exchanges the two. -/
def Stands (x x' : String) : Prop :=
  (x ∈ table.names ∧ x' ∈ table.names ∧ R x x') ∨ (x ∉ table.names ∧ x' = ρ x)

/-- Two nodes do the same thing to names that stand for each other. -/
structure Node.Corresponds (n n' : Node) : Prop where
  inputs : List.Forall₂ (Stands table R ρ) n.inputs n'.inputs
  eq : n' = { n with name := n'.name, inputs := n'.inputs, outputs := n.outputs.map ρ }

structure Declaration.Corresponds (d d' : Declaration) : Prop where
  name : d'.name = ρ d.name
  source : Stands table R ρ d.source d'.source
  type : d'.type = d.type

/-- The nodes, inputs and outputs of two levels correspond, and a permutation exchanges the names
with records. -/
structure Level.Corresponds (l l' : Level) : Prop where
  inputs : l'.inputs = l.inputs.map ρ
  outputs : l'.outputs = l.outputs.map ρ
  nodes : List.Forall₂ (Node.Corresponds table R ρ) l.nodes l'.nodes
  info : ∀ x, l'.info? (ρ x) = l.info? x

/-- Two traces differ at most in what their constants hold, and `R` relates these. -/
structure Trace.Corresponds (t t' : Trace) : Prop where
  inputs : t.inputs = t'.inputs
  constants : List.Forall₂ (fun c c' => c.1 = c'.1 ∧
    ∀ x x', table.find? c.2 = some x → table.find? c'.2 = some x' → R x x') t.constants t'.constants
  equations : t.equations = t'.equations
  outputs : t.outputs = t'.outputs

/-- Functions of one name pass on related constants and have the same records of outputs. -/
def Targets.Correspond (targets targets' : Targets) : Prop :=
  ∀ i ts g g', targets i ts g → targets' i ts g' → g.function.name = g'.function.name →
    List.Forall₂ R g.captured g'.captured ∧ g.infos = g'.infos

end

/-- A permutation exchanges the inputs of two levels and the outputs of their equations in order,
and constants stay. -/
structure Aligns (table : InitializerTable) (inputs inputs' : List String) (body body' : List Node)
    (ρ : Equiv.Perm String) : Prop where
  constants : ∀ x ∈ table.names, ρ x = x
  inputs : inputs' = inputs.map ρ
  outputs : body'.flatMap Node.outputs = (body.flatMap Node.outputs).map ρ

section

variable {table : InitializerTable} {R : String → String → Prop} {ρ : Equiv.Perm String}
  {x x' : String}

theorem mem_names_iff_of_fixed (hρ : ∀ x ∈ table.names, ρ x = x) {x : String} :
    ρ x ∈ table.names ↔ x ∈ table.names := by
  constructor
  · intro hx
    rwa [ρ.injective (hρ _ hx)] at hx
  · intro hx
    rwa [hρ x hx]

namespace Stands

theorem eq_of_not_mem (h : Stands table R ρ x x') (hx : x ∉ table.names) : x' = ρ x :=
  h.elim (fun hconstant => absurd hconstant.1 hx) And.right

theorem of_agree {ρ' : Equiv.Perm String} (h : Stands table R ρ x x') (hρ' : ρ' x = ρ x) :
    Stands table R ρ' x x' :=
  h.imp_right fun hown => ⟨hown.1, hown.2.trans hρ'.symm⟩

theorem mem_names_iff (h : Stands table R ρ x x') (hρ : ∀ x ∈ table.names, ρ x = x) :
    x' ∈ table.names ↔ x ∈ table.names := by
  rcases h with ⟨hx, hx', -⟩ | ⟨-, rfl⟩
  · simp only [hx, hx']
  · exact mem_names_iff_of_fixed hρ

/-- Names that stand for each other are aliased alike. -/
theorem aliased_iff (h : Stands table R ρ x x') (hρ : ∀ x ∈ table.names, ρ x = x)
    {inputs declared : List String} :
    (x' ∈ inputs.map ρ ∨ x' ∈ table.names ∨ x' ∈ declared.map ρ) ↔
      (x ∈ inputs ∨ x ∈ table.names ∨ x ∈ declared) := by
  rcases h with ⟨hx, hx', -⟩ | ⟨-, rfl⟩
  · simp only [hx, hx', true_or, or_true]
  · rw [List.mem_map_of_injective ρ.injective, mem_names_iff_of_fixed hρ,
      List.mem_map_of_injective ρ.injective]

/-- Where constants stand for themselves, so that the permutation leaves them, it exchanges all
names. -/
theorem eq_of_fixed (h : Stands table Eq ρ x x') (hρ : ∀ x ∈ table.names, ρ x = x) : x' = ρ x := by
  rcases h with ⟨hx, -, rfl⟩ | ⟨-, hx'⟩
  · exact (hρ x hx).symm
  · exact hx'

end Stands

end

section

variable {program : Program} {symbols : SymbolTable} {targets targets' : Targets} {σ : Shared}
  {names names' : Nat → Option String} {info info' : String → Option Info} {t t' : Trace}
  {inputs inputs' : List String} {body body' tail tail' : List Node}
  {decls decls' : List Declaration} {R : String → String → Prop} {ρ : Equiv.Perm String}

/-- The outputs of nodes are what the outputs of their equations go by. -/
theorem flatMap_outputs_of_emits {table : InitializerTable} {es : List Equation} {nodes : List Node}
    (h : List.Forall₂ (EmitsWith program symbols targets table names info) es nodes) :
    (es.flatMap Equation.outputs).map (fun v => names v.id) =
      (nodes.flatMap Node.outputs).map some := by
  induction h with
  | nil => rfl
  | @cons e n es nodes hen _ ih =>
    obtain ⟨placed, hemits, -⟩ := hen
    rw [List.flatMap_cons, List.flatMap_cons, List.map_append, List.map_append,
      hemits.outputs_eq, ih]

namespace Translation

/-- Before the identity nodes of outputs, the names of a level's own are its inputs and the outputs
of equations, which differ. -/
theorem nodup_before
    (h : Translation program symbols targets σ names info t inputs body tail decls) :
    (inputs ++ body.flatMap Node.outputs).Nodup := by
  have hnodup := h.own_nodup
  rw [List.flatMap_append, ← List.append_assoc] at hnodup
  exact (List.nodup_append.1 hnodup).1

variable (h : Translation program symbols targets σ names info t inputs body tail decls)
  (h' : Translation program symbols targets' σ names' info' t' inputs' body' tail' decls')
  (ht : t.Corresponds σ.table R t')

include h h' ht

/-- The inputs and the outputs of equations of two translations can be exchanged. -/
theorem exists_aligns : ∃ ρ, Aligns σ.table inputs inputs' body body' ρ := by
  have hinputs : inputs.length = inputs'.length :=
    length_eq_of_map_eq h.inputs_eq (ht.inputs ▸ h'.inputs_eq)
  have houtputs : (body.flatMap Node.outputs).length = (body'.flatMap Node.outputs).length :=
    length_eq_of_map_eq (flatMap_outputs_of_emits h.emits)
      (ht.equations ▸ flatMap_outputs_of_emits h'.emits)
  obtain ⟨ρ, hρ, hfixed⟩ := exists_perm_of_nodup
    (by rw [List.length_append, List.length_append, hinputs, houtputs])
    h.nodup_before h'.nodup_before (fun x hx => h.own_new x (mem_own_of_mem hx tail))
    (fun x hx => h'.own_new x (mem_own_of_mem hx tail'))
  rw [List.map_append] at hρ
  obtain ⟨h₁, h₂⟩ := List.append_inj hρ (by rw [List.length_map, hinputs])
  exact ⟨ρ, hfixed, h₁.symm, h₂.symm⟩

/-- What equations make goes by exchanged names. -/
theorem name_eq_of_aligns (hρ : Aligns σ.table inputs inputs' body body' ρ) {e : Equation}
    (he : e ∈ t.equations) {v : Var} (hv : v ∈ e.outputs) : names' v.id = (names v.id).map ρ := by
  have houtputs := flatMap_outputs_of_emits h'.emits
  rw [← ht.equations, hρ.outputs] at houtputs
  exact eq_option_map_of_map_eq (flatMap_outputs_of_emits h.emits) houtputs
    (List.mem_flatMap.2 ⟨e, he, hv⟩)

/-- Variables go by names that stand for each other. -/
theorem stands_of_name (hρ : Aligns σ.table inputs inputs' body body' ρ) {id : Nat}
    (hid : id ∈ t.given ++ madeBy t.equations) {x x' : String} (hx : names id = some x)
    (hx' : names' id = some x') :
    Stands σ.table R ρ x x' := by
  -- Inputs and what equations make have names of the level's own, which the permutation exchanges.
  have hown : names' id = (names id).map ρ → x ∈ inputs ++ body.flatMap Node.outputs →
      Stands σ.table R ρ x x' :=
    fun hnames hmem => Or.inr ⟨h.own_new x (mem_own_of_mem hmem tail), by
      rw [hx, hx'] at hnames
      exact Option.some.inj hnames⟩
  rcases List.mem_append.1 hid with hid | hid
  · rcases List.mem_append.1 hid with hid | hid
    · obtain ⟨v, hv, rfl⟩ := List.mem_map.1 hid
      obtain ⟨y, hy, hname⟩ := exists_of_map_eq_map_some h.inputs_eq hv
      obtain rfl : y = x := Option.some.inj (hname.symm.trans hx)
      exact hown (eq_option_map_of_map_eq h.inputs_eq (hρ.inputs ▸ ht.inputs ▸ h'.inputs_eq) hv)
        (List.mem_append_left _ hy)
    · obtain ⟨c, hc, rfl⟩ := List.mem_map.1 hid
      obtain ⟨i, hi⟩ := List.getElem?_of_mem hc
      obtain ⟨c', hc', hvar, hrelated⟩ := exists_of_forall₂ ht.constants hi
      obtain ⟨y, hy, hname⟩ := h.constants c hc
      obtain ⟨y', hy', hname'⟩ := h'.constants c' (List.mem_of_getElem? hc')
      obtain rfl : y = x := Option.some.inj (hname.symm.trans hx)
      obtain rfl : y' = x' := Option.some.inj (hname'.symm.trans (hvar ▸ hx'))
      exact Or.inl ⟨InitializerTable.mem_names_of_find? hy, InitializerTable.mem_names_of_find? hy',
        hrelated y y' hy hy'⟩
  · obtain ⟨y, hy, hname⟩ := exists_name_of_madeBy h.emits hid
    obtain rfl : y = x := Option.some.inj (hname.symm.trans hx)
    obtain ⟨e, he, hid⟩ := List.mem_flatMap.1 hid
    obtain ⟨v, hv, rfl⟩ := List.mem_map.1 hid
    exact hown (h.name_eq_of_aligns h' ht hρ he hv) (List.mem_append_right _ hy)

/-- Operands go by names that stand for each other. -/
theorem stands_of_name? (hR : ∀ x, R x x) (hρ : Aligns σ.table inputs inputs' body body' ρ)
    {a : Atom} (ha : a.IsKnown (t.given ++ madeBy t.equations)) {x x' : String}
    (hx : a.name? σ.table names = some x) (hx' : a.name? σ.table names' = some x') :
    Stands σ.table R ρ x x' := by
  cases a with
  | var v => exact h.stands_of_name h' ht hρ ha hx hx'
  | literal value =>
    obtain rfl : x = x' := Option.some.inj (hx.symm.trans hx')
    have hmem := InitializerTable.mem_names_of_find? hx
    exact Or.inl ⟨hmem, hmem, hR x⟩

/-- Two nodes of one equation correspond, and so does what they say of its outputs. -/
theorem corresponds_of_emits (hR : ∀ x, R x x) (hρ : Aligns σ.table inputs inputs' body body' ρ)
    (htargets : targets.CaptureFrom σ.table) (htargets' : targets'.CaptureFrom σ.table)
    (hcallees : Targets.Correspond R targets targets') {e : Equation} (he : e ∈ t.equations)
    {n n' : Node} {placed placed' : List (Option Info)}
    (hemits : Emits program targets σ.table names e n placed)
    (hemits' : Emits program targets' σ.table names' e n' placed')
    (hop : ∀ index, e.callee? = some index → n.opType = n'.opType) :
    n.Corresponds σ.table R ρ n' ∧ placed' = placed := by
  have houtputs : n'.outputs = n.outputs.map ρ :=
    eq_map_of_map_eq_map_some hemits.outputs_eq hemits'.outputs_eq fun v hv =>
      h.name_eq_of_aligns h' ht hρ he hv
  have hdata : ∀ {xs xs' : List String}, e.inputs.map (Atom.name? σ.table names) = xs.map some →
      e.inputs.map (Atom.name? σ.table names') = xs'.map some →
      List.Forall₂ (Stands σ.table R ρ) xs xs' := fun hxs hxs' =>
    forall₂_of_map_eq_map_some hxs hxs' fun a ha x x' =>
      h.stands_of_name? h' ht hR hρ (h.reads.isKnown he ha)
  cases hemits with
  | @primitive a b v op x y z nodeName callee operation inputs outputs lhs rhs out =>
    cases hemits' with
    | @primitive a' b' v' op' x' y' z' nodeName' callee' operation' inputs' outputs' lhs' rhs'
      out' =>
      obtain rfl : op = op' := Option.some.inj (operation.symm.trans operation')
      refine ⟨⟨hdata (by simp [Node.plain, inputs, lhs, rhs])
        (by simp [Node.plain, inputs', lhs', rhs']), ?_⟩, rfl⟩
      simp only [Node.plain] at houtputs ⊢
      rw [houtputs]
    | call calls known inputs outputs target count => simp [callee] at calls
  | @call index c callee data outs nodeName calls known inputs outputs target count =>
    cases hemits' with
    | primitive callee' operation' inputs' outputs' lhs' rhs' out' => simp [callee'] at calls
    | @call index' c' callee' data' outs' nodeName' calls' known' inputs' outputs' target' count' =>
      obtain rfl : index = index' := Option.some.inj (calls.symm.trans calls')
      obtain rfl : c = c' := Option.some.inj (known.symm.trans known')
      have hname : callee.function.name = callee'.function.name := hop index calls
      obtain ⟨hcaptured, hinfos⟩ := hcallees _ _ _ _ target target' hname
      have hconstants : List.Forall₂ (Stands σ.table R ρ) callee.captured callee'.captured := by
        refine List.forall₂_iff_zip.2 ⟨hcaptured.length_eq, fun {x x'} hmem => Or.inl ⟨?_, ?_, ?_⟩⟩
        · exact htargets _ _ _ target x (List.of_mem_zip hmem).1
        · exact htargets' _ _ _ target' x' (List.of_mem_zip hmem).2
        · exact (List.forall₂_iff_zip.1 hcaptured).2 hmem
      refine ⟨⟨List.rel_append (hdata inputs inputs') hconstants, ?_⟩, by rw [hinfos]⟩
      simp only [Callable.node, Node.plain] at houtputs ⊢
      rw [houtputs, hname]

/-- The nodes of equations correspond, and so do the records of their outputs. -/
theorem forall₂_corresponds_of_emits (hR : ∀ x, R x x)
    (hρ : Aligns σ.table inputs inputs' body body' ρ) (htargets : targets.CaptureFrom σ.table)
    (htargets' : targets'.CaptureFrom σ.table) (hcallees : Targets.Correspond R targets targets')
    {es : List Equation} (hes : es ⊆ t.equations) {nodes nodes' : List Node}
    (hnodes : List.Forall₂ (EmitsWith program symbols targets σ.table names info) es nodes)
    (hnodes' : List.Forall₂ (EmitsWith program symbols targets' σ.table names' info') es nodes')
    (hops : ∀ (i : Nat) e index, es[i]? = some e → e.callee? = some index →
      nodes[i]?.map Node.opType = nodes'[i]?.map Node.opType) :
    List.Forall₂ (Node.Corresponds σ.table R ρ) nodes nodes' ∧ ∀ x ∈ nodes.flatMap Node.outputs,
      info' (ρ x) = info x := by
  induction hnodes generalizing nodes' with
  | nil =>
    cases hnodes'
    exact ⟨.nil, by simp⟩
  | @cons e n es nodes hen _ ih =>
    cases hnodes' with
    | @cons _ n' _ nodes' hen' hrest' =>
      rw [List.cons_subset] at hes
      obtain ⟨placed, hemits, -, hinfo⟩ := hen
      obtain ⟨placed', hemits', -, hinfo'⟩ := hen'
      obtain ⟨hn, rfl⟩ :=
        h.corresponds_of_emits h' ht hR hρ htargets htargets' hcallees hes.1 hemits hemits'
          fun index hindex => Option.some.inj (hops 0 e index rfl hindex)
      obtain ⟨hcorresponds, hinfos⟩ := ih hes.2 hrest' fun i => hops (i + 1)
      refine ⟨.cons hn hcorresponds, fun x hx => ?_⟩
      rw [List.flatMap_cons, List.mem_append] at hx
      rcases hx with hx | hx
      · have hmap : n.outputs.map (info' ∘ ρ) = n.outputs.map info := by
          rw [hinfo, ← hinfo', hn.eq, List.map_map]
        exact List.map_inj_left.1 hmap x hx
      · exact hinfos x hx

/-- Exchanged names have the same records before outputs are resolved. -/
theorem info_eq_of_aligns (hρ : Aligns σ.table inputs inputs' body body' ρ)
    (houtputs : ∀ x ∈ body.flatMap Node.outputs, info' (ρ x) = info x) (x : String) :
    info' (ρ x) = info x := by
  by_cases hx : x ∈ inputs ++ body.flatMap Node.outputs
  · rcases List.mem_append.1 hx with hx | hx
    · have hmap : inputs.map (info' ∘ ρ) = inputs.map info := by
        rw [← h.inputs_info, ht.inputs, h'.inputs_info, hρ.inputs, List.map_map]
      exact List.map_inj_left.1 hmap x hx
    · exact houtputs x hx
  · have hnone : info x = none := by
      by_contra hne
      exact hx (h.info_own x hne)
    rw [hnone]
    by_contra hne
    have hmem := h'.info_own (ρ x) hne
    rw [hρ.inputs, hρ.outputs, ← List.map_append, List.mem_map_of_injective ρ.injective] at hmem
    exact hx hmem

end Translation

end

/-! ## Declared outputs -/

/-- The outputs of nodes differ from each other and from the names `seen`. -/
def NewOutputs (seen : List String) (nodes : List Node) : Prop :=
  (nodes.flatMap Node.outputs).Nodup ∧ ∀ x ∈ nodes.flatMap Node.outputs, x ∉ seen

theorem newOutputs_cons_iff {seen : List String} {nodes : List Node} {nodeName x out : String} :
    NewOutputs seen (.plain "Identity" nodeName [x] [out] :: nodes) ↔ out ∉ seen ∧
      NewOutputs (seen ++ [out]) nodes := by
  simp only [NewOutputs, Node.plain, List.flatMap_cons, List.cons_append, List.nil_append,
    List.nodup_cons, List.forall_mem_cons, List.mem_append, List.mem_singleton, not_or, forall_and]
  constructor
  · rintro ⟨⟨hout, hnodup⟩, hseen, hnew⟩
    exact ⟨hseen, hnodup, hnew, fun y hy hyo => hout (hyo ▸ hy)⟩
  · rintro ⟨hseen, hnodup, hnew, hout⟩
    exact ⟨⟨fun h => hout out h rfl, hnodup⟩, hseen, hnew⟩

section

variable {table : InitializerTable} {R : String → String → Prop} {ρ : Equiv.Perm String}

/-- Outputs are behind identity nodes in one level if they are in the other, and exchanging the
outputs of these nodes too makes the levels correspond. -/
theorem Declares.exists_corresponds {names names' : Nat → Option String}
    {seen inputs inputs' declared declared' : List String} {atoms : List Atom}
    {nodes nodes' : List Node} {decls decls' : List Declaration}
    (h : Declares table names inputs declared atoms nodes decls)
    (h' : Declares table names' inputs' declared' atoms nodes' decls')
    (hρ : ∀ x ∈ table.names, ρ x = x) (hin : inputs' = inputs.map ρ)
    (hdeclared : declared' = declared.map ρ) (hseen : table.names ++ inputs ++ declared ⊆ seen)
    (hatoms : ∀ a ∈ atoms, ∀ x x', a.name? table names = some x → a.name? table names' = some x' →
      Stands table R ρ x x') (hknown : ∀ a ∈ atoms, ∀ x, a.name? table names = some x → x ∈ seen)
    (hnew : NewOutputs seen nodes) (hnew' : NewOutputs (seen.map ρ) nodes') :
    ∃ ρ' : Equiv.Perm String, (∀ z ∈ seen, ρ' z = ρ z) ∧
      List.Forall₂ (Node.Corresponds table R ρ') nodes nodes' ∧
      List.Forall₂ (Declaration.Corresponds table R ρ') decls decls' := by
  induction h generalizing ρ seen declared' nodes' decls' with
  | nil =>
    cases h'
    exact ⟨ρ, fun _ _ => rfl, .nil, .nil⟩
  | @own declared a x rest nodes decls source notInput notConstant notDeclared next ih =>
    rw [List.forall_mem_cons] at hatoms hknown
    have hx := hknown.1 x source
    subst hin hdeclared
    cases h' with
    | @own _ _ x' _ _ decls' source' notInput' notConstant' notDeclared' next' =>
      have hstands := hatoms.1 x x' source source'
      obtain rfl := hstands.eq_of_not_mem notConstant
      obtain ⟨ρ', hkept, hnodes, hdecls⟩ := ih next' hρ rfl (by rw [List.map_append]; rfl)
        (by simpa [hx] using hseen) hatoms.2 hknown.2 hnew hnew'
      exact ⟨ρ', hkept, hnodes,
        .cons ⟨(hkept x hx).symm, hstands.of_agree (hkept x hx), rfl⟩ hdecls⟩
    | @routed _ _ x' out' nodeName' _ nodes' decls' source' aliased' next' =>
      exact absurd (((hatoms.1 x x' source source').aliased_iff hρ).1 aliased')
        (by simp [notInput, notConstant, notDeclared])
  | @routed declared a x out nodeName rest nodes decls source aliased next ih =>
    rw [List.forall_mem_cons] at hatoms hknown
    have hx := hknown.1 x source
    subst hin hdeclared
    cases h' with
    | @own _ _ x' _ _ decls' source' notInput' notConstant' notDeclared' next' =>
      exact absurd (((hatoms.1 x x' source source').aliased_iff hρ).2 aliased)
        (by simp [notInput', notConstant', notDeclared'])
    | @routed _ _ x' out' nodeName' _ nodes' decls' source' aliased' next' =>
      obtain ⟨hout, hnew⟩ := newOutputs_cons_iff.1 hnew
      obtain ⟨hout', hnew'⟩ := newOutputs_cons_iff.1 hnew'
      obtain ⟨ρ₁, hout₁, hkept₁⟩ := exists_perm_extend ρ hout hout'
      have hmap : ∀ {zs : List String}, zs ⊆ seen → zs.map ρ = zs.map ρ₁ := fun hzs =>
        List.map_congr_left fun z hz => (hkept₁ z (hzs hz)).symm
      obtain ⟨⟨htable, hinputs⟩, hdeclared⟩ :=
        (List.append_subset.1 hseen).imp_left List.append_subset.1
      obtain ⟨ρ', hkept, hnodes, hdecls⟩ := @ih ρ₁ (seen ++ [out]) _ _ _ next'
        (fun z hz => (hkept₁ z (htable hz)).trans (hρ z hz)) (hmap hinputs)
        (by rw [List.map_append, hmap hdeclared, ← hout₁]; rfl)
        (by
          rw [← List.append_assoc]
          exact List.append_subset.2 ⟨List.subset_append_of_subset_left _ hseen,
            List.subset_append_right _ _⟩)
        (fun b hb y y' hy hy' => (hatoms.2 b hb y y' hy hy').of_agree
          (hkept₁ y (hknown.2 b hb y hy))) (fun b hb y hy =>
            List.mem_append_left _ (hknown.2 b hb y hy)) hnew
        (by rwa [List.map_append, ← hmap (List.Subset.refl seen), List.map_singleton, hout₁])
      have hρx : ρ' x = ρ x := (hkept x (List.mem_append_left _ hx)).trans (hkept₁ x hx)
      have hρout : ρ' out = out' := (hkept out (by simp)).trans hout₁
      have hstands := (hatoms.1 x x' source source').of_agree hρx
      refine ⟨ρ', fun z hz => (hkept z (List.mem_append_left _ hz)).trans (hkept₁ z hz),
        .cons ⟨.cons hstands .nil, ?_⟩ hnodes, .cons ⟨hρout.symm, hstands, rfl⟩ hdecls⟩
      simp [Node.plain, hρout]

/-- Corresponding outputs get the same records. Constants have none. -/
theorem Resolves.info_eq {symbols : SymbolTable} {info info' final final' : String → Option Info}
    {decls decls' : List Declaration} (h : Resolves symbols info decls final)
    (h' : Resolves symbols info' decls' final')
    (hdecls : List.Forall₂ (Declaration.Corresponds table R ρ) decls decls')
    (hρ : ∀ x ∈ table.names, ρ x = x) (hnames : ∀ d ∈ decls, d.name ∉ table.names)
    (hinfo : ∀ x, info' (ρ x) = info x) (hconstants : ∀ x ∈ table.names, info x = none)
    (x : String) : final' (ρ x) = final x := by
  induction h generalizing info' decls' with
  | nil =>
    cases hdecls
    cases h'
    exact hinfo x
  | @cons info final d rest i found next ih =>
    cases hdecls with
    | @cons _ d' _ rest' hd hrest =>
      cases h' with
      | @cons _ _ _ _ i' found' next' =>
        rw [List.forall_mem_cons] at hnames
        have hsource : info' d'.source = info d.source := by
          rcases hd.source with ⟨hx, hx', -⟩ | ⟨-, hx'⟩
          · rw [← hρ _ hx', hinfo, hconstants _ hx', hconstants _ hx]
          · rw [hx', hinfo]
        have hfound : resolution? symbols info' d' = resolution? symbols info d := by
          rw [resolution?, resolution?, hd.name, hinfo, hsource, hd.type]
        obtain rfl : i = i' := Option.some.inj (found.symm.trans (hfound.symm.trans found'))
        refine ih next' hrest hnames.2 (fun y => ?_) fun y hy => ?_
        · simp only [Function.update_apply, hd.name, ρ.injective.eq_iff, hinfo]
        · rw [Function.update_of_ne (ne_of_mem_of_not_mem hy hnames.1), hconstants y hy]

end

/-! ## Levels of one trace -/

section

variable {program : Program} {settings : Params} {symbols : SymbolTable}
  {targets targets' : Targets} {σ : Shared} {names names' : Nat → Option String}
  {info info' : String → Option Info} {t t' : Trace} {l l' : Level}
  {body body' tail tail' : List Node} {decls decls' : List Declaration} {R : String → String → Prop}
  {ρ : Equiv.Perm String}

theorem Trace.Corresponds.refl {table : InitializerTable} (hR : ∀ x, R x x) :
    t.Corresponds table R t where
  inputs := rfl
  constants := List.forall₂_same.2 fun _ _ =>
    ⟨rfl, fun x _ hx hx' => Option.some.inj (hx.symm.trans hx') ▸ hR x⟩
  equations := rfl
  outputs := rfl

/-- Where constants stand for themselves, corresponding nodes match. -/
theorem Node.Corresponds.matches {table : InitializerTable} {n n' : Node}
    (h : n.Corresponds table Eq ρ n') (hρ : ∀ x ∈ table.names, ρ x = x) : n.Matches ρ n' := by
  have hinputs : List.Forall₂ Eq (n.inputs.map ρ) n'.inputs := by
    rw [List.forall₂_map_left_iff]
    exact h.inputs.imp fun x x' hx => (hx.eq_of_fixed hρ).symm
  rw [List.forall₂_eq_eq_eq] at hinputs
  rw [Node.Matches, hinputs]
  exact h.eq

/-- Calls that refer to the same functions have the same operation. -/
theorem opType_eq_of_emits {table : InitializerTable}
    (hsame : ∀ i ts g g', targets i ts g → targets' i ts g' → g = g') {es : List Equation}
    {nodes nodes' : List Node}
    (hnodes : List.Forall₂ (EmitsWith program symbols targets table names info) es nodes)
    (hnodes' : List.Forall₂ (EmitsWith program symbols targets' table names' info') es nodes')
    {i index : Nat} {e : Equation} (he : es[i]? = some e) (hcallee : e.callee? = some index) :
    nodes[i]?.map Node.opType = nodes'[i]?.map Node.opType := by
  obtain ⟨n, hn, placed, hemits, -⟩ := exists_of_forall₂ hnodes he
  obtain ⟨n', hn', placed', hemits', -⟩ := exists_of_forall₂ hnodes' he
  rw [hn, hn']
  cases hemits with
  | primitive callee operation inputs outputs lhs rhs out => simp [hcallee] at callee
  | call calls known inputs outputs target count =>
    cases hemits' with
    | primitive callee' operation' inputs' outputs' lhs' rhs' out' => simp [hcallee] at callee'
    | call calls' known' inputs' outputs' target' count' =>
      obtain rfl := Option.some.inj (calls.symm.trans calls')
      obtain rfl := hsame _ _ _ _ target target'
      rfl

theorem Aligns.map_eq {inputs inputs' : List String}
    (h : Aligns σ.table inputs inputs' body body' ρ) :
    (σ.table.names ++ (inputs ++ body.flatMap Node.outputs)).map ρ =
      σ.table.names ++ (inputs' ++ body'.flatMap Node.outputs) := by
  have hconstants : σ.table.names.map ρ = σ.table.names := by
    simpa using List.map_congr_left h.constants
  rw [List.map_append, List.map_append, hconstants, ← h.inputs, ← h.outputs]

theorem Aligns.of_agree {inputs inputs' : List String} {ρ' : Equiv.Perm String}
    (h : Aligns σ.table inputs inputs' body body' ρ)
    (hρ' : ∀ x ∈ σ.table.names ++ (inputs ++ body.flatMap Node.outputs), ρ' x = ρ x) :
    Aligns σ.table inputs inputs' body body' ρ' where
  constants x hx := (hρ' x (by simp [hx])).trans (h.constants x hx)
  inputs := h.inputs.trans (List.map_congr_left fun x hx => (hρ' x (by simp [hx])).symm)
  outputs :=
    h.outputs.trans (List.map_congr_left fun x hx => (hρ' x (by simp [List.mem_flatMap.1 hx])).symm)

theorem Translation.newOutputs {inputs : List String}
    (h : Translation program symbols targets σ names info t inputs body tail decls) :
    NewOutputs (σ.table.names ++ (inputs ++ body.flatMap Node.outputs)) tail := by
  have hnodup := h.own_nodup
  rw [List.flatMap_append, ← List.append_assoc, List.nodup_append] at hnodup
  refine ⟨hnodup.2.1, fun x hx hmem => ?_⟩
  rcases List.mem_append.1 hmem with hmem | hmem
  · refine h.own_new x ?_ hmem
    rw [List.flatMap_append]
    exact List.mem_append_right _ (List.mem_append_right _ hx)
  · exact hnodup.2.2 x hmem x hx rfl

/-- The outputs of a finished level are no constants. -/
theorem Level.Translates.not_mem_names
    (h : l.Translates program symbols targets σ names info t body tail decls) {x : String}
    (hx : x ∈ l.outputs) : x ∉ σ.table.names := by
  have hmade := h.outputs_spec.2 x hx
  rw [h.nodes] at hmade
  exact h.translation.own_new x (List.mem_append_right _ hmade)

/-- Levels that translate corresponding traces correspond, if calls at the same places are of
functions with the same name. -/
theorem Level.Translates.exists_corresponds
    (h : l.Translates program symbols targets σ names info t body tail decls)
    (h' : l'.Translates program symbols targets' σ names' info' t' body' tail' decls')
    (hR : ∀ x, R x x) (ht : t.Corresponds σ.table R t') (htargets : targets.CaptureFrom σ.table)
    (htargets' : targets'.CaptureFrom σ.table) (hcallees : Targets.Correspond R targets targets')
    (hops : ∀ (i : Nat) e index, t.equations[i]? = some e → e.callee? = some index →
      body[i]?.map Node.opType = body'[i]?.map Node.opType) :
    ∃ ρ : Equiv.Perm String, (∀ x ∈ σ.table.names, ρ x = x) ∧ l.Corresponds σ.table R ρ l' := by
  obtain ⟨ρ₀, hρ₀⟩ := h.translation.exists_aligns h'.translation ht
  have hnew' :
      NewOutputs ((σ.table.names ++ (l.inputs ++ body.flatMap Node.outputs)).map ρ₀) tail' := by
    rw [hρ₀.map_eq]
    exact h'.translation.newOutputs
  obtain ⟨ρ, hkept, htail, hdecls⟩ :=
    h.translation.declares.exists_corresponds (ht.outputs ▸ h'.translation.declares) hρ₀.constants
      hρ₀.inputs rfl
    (by
      rw [List.append_nil, ← List.append_assoc]
      exact List.subset_append_left _ _)
    (fun a ha x x' => h.translation.stands_of_name? h'.translation ht hR hρ₀
      (h.translation.results a ha)) (fun a ha x hx =>
        List.mem_append.2 (h.translation.mem_of_name? (h.translation.results a ha) hx).symm)
    h.translation.newOutputs hnew'
  have hρ := hρ₀.of_agree hkept
  obtain ⟨hbody, hinfos⟩ :=
    h.translation.forall₂_corresponds_of_emits h'.translation ht hR hρ htargets htargets' hcallees
      (List.Subset.refl _) h.translation.emits (ht.equations ▸ h'.translation.emits) hops
  refine ⟨ρ, hρ.constants, hρ.inputs, ?_, ?_,
    h.resolves.info_eq h'.resolves hdecls hρ.constants (fun d hd => ?_)
      (h.translation.info_eq_of_aligns h'.translation ht hρ hinfos) fun x =>
        h.translation.info_eq_none_of_mem_names⟩
  · have hnames :
      List.Forall₂ Eq (decls.map (ρ ∘ Declaration.name)) (decls'.map Declaration.name) := by
      rw [List.forall₂_map_left_iff, List.forall₂_map_right_iff]
      exact hdecls.imp fun _ _ hd => hd.name.symm
    rw [h.outputs, h'.outputs, List.map_map]
    exact (List.forall₂_eq_eq_eq ▸ hnames).symm
  · rw [h.nodes, h'.nodes]
    exact List.rel_append hbody htail
  · exact h.not_mem_names (h.outputs ▸ List.mem_map_of_mem hd)

/-- Levels that translate the same trace over the same constants differ by their names only, if
calls refer to the same functions. -/
theorem Level.Translates.exists_matches
    (h : l.Translates program symbols targets σ names info t body tail decls)
    (h' : l'.Translates program symbols targets' σ names' info' t body' tail' decls')
    (htargets : targets.CaptureFrom σ.table) (htargets' : targets'.CaptureFrom σ.table)
    (hsame : ∀ i ts g g', targets i ts g → targets' i ts g' → g = g') :
    ∃ ρ : Equiv.Perm String, (∀ x ∈ σ.table.names, ρ x = x) ∧ l.Matches ρ l' := by
  obtain ⟨ρ, hρ, hl⟩ :=
    h.exists_corresponds h' (fun x => rfl) (.refl fun x => rfl) htargets htargets'
      (fun i ts g g' hg hg' _ => by
        rw [hsame i ts g g' hg hg']
        exact ⟨List.forall₂_same.2 fun x _ => rfl, rfl⟩)
      fun i e index he hcallee =>
        opType_eq_of_emits hsame h.translation.emits h'.translation.emits he hcallee
  exact ⟨ρ, hρ, hl.inputs, hl.outputs, hl.nodes.imp fun n n' hn => hn.matches hρ, hl.info⟩

/-! ## One implementation -/

theorem flatMap_inputs_eq_map {f : String → String} {nodes nodes' : List Node}
    (h : List.Forall₂ (fun n n' => n'.inputs = n.inputs.map f) nodes nodes') :
    nodes'.flatMap Node.inputs = (nodes.flatMap Node.inputs).map f := by
  induction h with
  | nil => rfl
  | cons hn _ ih => rw [List.flatMap_cons, List.flatMap_cons, List.map_append, hn, ih]

/-- Matching levels read the same constants. -/
theorem Level.Matches.referencedInitializers_eq (h : l.Matches ρ l') {table : InitializerTable}
    (hρ : ∀ x ∈ table.names, ρ x = x) :
    l'.referencedInitializers table = l.referencedInitializers table := by
  have hcontains : ∀ x, table.contains (ρ x) = table.contains x := fun x => by
    rw [Bool.eq_iff_iff, InitializerTable.contains_iff, InitializerTable.contains_iff,
      mem_names_iff_of_fixed hρ]
  have hfilter : (l'.nodes.flatMap Node.inputs).filter table.contains =
      (l.nodes.flatMap Node.inputs).filter table.contains := by
    rw [flatMap_inputs_eq_map (h.nodes.imp fun n n' hn => by rw [hn]), List.filter_map]
    have hcomp : table.contains ∘ ρ = table.contains := funext hcontains
    rw [hcomp]
    simpa using List.map_congr_left fun x hx =>
      hρ x (InitializerTable.contains_iff.1 (List.mem_filter.1 hx).2)
  rw [referencedInitializers, referencedInitializers, hfilter]

/-- Levels that translate the same trace become functions that differ by their names only. -/
theorem Level.Translates.toFunction_unique
    (h : l.Translates program symbols targets σ names info t body tail decls)
    (h' : l'.Translates program symbols targets' σ names' info' t body' tail' decls')
    (htargets : targets.CaptureFrom σ.table) (htargets' : targets'.CaptureFrom σ.table)
    (hρ : ∀ x ∈ σ.table.names, ρ x = x) (hmatches : l.Matches ρ l') {f f' : Function}
    (hf : l.toFunction f.name (l.referencedInitializers σ.table) σ.table = .ok f)
    (hf' : l'.toFunction f'.name (l.referencedInitializers σ.table) σ.table = .ok f') :
    f' = { f with name := f'.name } := by
  have hcaptured := hmatches.referencedInitializers_eq hρ
  obtain ⟨-, records, hrecords, hf⟩ := Level.toFunction_eq_ok.1 hf
  obtain ⟨-, records', hrecords', hf'⟩ := Level.toFunction_eq_ok.1 hf'
  obtain rfl : records = records' := Except.ok.inj (hrecords.symm.trans hrecords')
  have hconstants : ∀ x ∈ l.referencedInitializers σ.table, x ∈ σ.table.names := fun x hx =>
    (Level.mem_referencedInitializers.1 hx).2
  have heq :=
    hmatches.functionWith_eq (by simpa using List.map_congr_left fun x hx => hρ x (hconstants x hx))
      h.nodup_inputs_captured (hcaptured ▸ h'.nodup_inputs_captured)
    (h.readsFrom_captured htargets) (hcaptured ▸ h'.readsFrom_captured htargets') hrecords
    (fun x hx => h.info?_eq_none_of_mem_names (hconstants x hx)) f'.name
  rw [← hf'] at heq
  rw [heq, hf]
  rfl

/-- On given argument types one function implements a callable, and is passed the same constants
wherever it is called. -/
theorem Implements.unique {index : Nat} {types : List AbstractValue} {callee callee' : Callee}
    (hσ : σ.Sound program settings symbols) (hrepeat : program.Repeatable settings)
    (h : Implements program settings symbols σ index types callee)
    (h' : Implements program settings symbols σ index types callee') : callee = callee' := by
  induction h generalizing callee' with
  | @intro index counts counts' c types t l targets names info body tail decls callee f known trace
    inner translates function same member captured infos ih =>
    cases h' with
    | @intro _ counts₁ counts₁' c₁ _ t₁ l₁ targets₁ names₁ info₁ body₁ tail₁ decls₁ _ f₁ known₁
      trace₁ inner₁ translates₁ function₁ same₁ member₁ captured₁ infos₁ =>
      obtain rfl : c = c₁ := Option.some.inj (known.symm.trans known₁)
      obtain rfl : t = t₁ := hrepeat.trace_unique known trace trace₁
      obtain ⟨ρ, hρ, hmatches⟩ := translates.exists_matches translates₁ (captureFrom_of_inner inner)
        (captureFrom_of_inner inner₁) fun i ts g g' hg hg' => ih i ts g hg (inner₁ i ts g' hg')
      rw [← hmatches.referencedInitializers_eq hρ, ← captured₁] at captured
      rw [captured₁, hmatches.referencedInitializers_eq hρ] at function₁
      rw [captured, captured₁, hmatches.referencedInitializers_eq hρ] at function
      have hbody :=
        translates.toFunction_unique translates₁ (captureFrom_of_inner inner)
          (captureFrom_of_inner inner₁) hρ hmatches function function₁
      have hrenamed :
          callee'.function = { callee.function with name := callee'.function.name } := by
        rw [same₁, hbody, same]
      refine Callee.ext (hσ.eq_of_sameBody member member₁ ?_) captured ?_
      · rw [hrenamed]
        exact hσ.sameBody_self member
      · rw [infos, infos₁, hmatches.outputs, List.map_map]
        exact List.map_congr_left fun x _ => (hmatches.info x).symm

end

end TensorGraph
