import Mathlib.Data.List.Pairwise
import TensorGraph.Proofs.Implements
import TensorGraph.Proofs.Recording

/-!
# The table of functions

Functions are appended to one table, and a nested level that becomes a function with a known body
refers to the known one. What the table keeps is `Shared.Sound` : names are different, so are
bodies, a function calls only functions before it (`CalleesFirst`), and every function implements a
callable. Taking names, adding constants and appending a function keep it (`Shared.Sound.grow`,
`Shared.Sound.push`).
-/

namespace TensorGraph

/-! ## Equal bodies -/

theorem Node.eq_of_same {m n : Node} (h : m.same n = true) (hn : n.attributes = []) : m = n := by
  obtain ⟨name, opType, domain, inputs, outputs, attributes, displayName⟩ := m
  obtain ⟨name', opType', domain', inputs', outputs', attributes', displayName'⟩ := n
  subst hn
  simp only [same, Bool.and_eq_true, beq_iff_eq] at h
  obtain ⟨⟨⟨⟨⟨⟨rfl, rfl⟩, rfl⟩, rfl⟩, rfl⟩, hattributes⟩, rfl⟩ := h
  cases attributes with
  | nil => rfl
  | cons entry rest => simp [List.isEqv] at hattributes

theorem Node.same_self {n : Node} (h : n.attributes = []) : n.same n = true := by
  simp [same, h]

/-- No node has attributes. -/
def Unconfigured (nodes : List Node) : Prop :=
  ∀ n ∈ nodes, n.attributes = []

theorem eq_of_isEqv_same {ms ns : List Node} (h : ms.isEqv ns Node.same = true)
    (hns : Unconfigured ns) : ms = ns := by
  induction ms generalizing ns with
  | nil =>
    cases ns with
    | nil => rfl
    | cons n ns => simp [List.isEqv] at h
  | cons m ms ih =>
    cases ns with
    | nil => simp [List.isEqv] at h
    | cons n ns =>
      simp only [List.isEqv, Bool.and_eq_true] at h
      rw [Node.eq_of_same h.1 (hns n (by simp)), ih h.2 fun n hn => hns n (by simp [hn])]

theorem isEqv_same_self {ns : List Node} (hns : Unconfigured ns) :
    ns.isEqv ns Node.same = true := by
  induction ns with
  | nil => rfl
  | cons n ns ih =>
    simp only [List.isEqv, Bool.and_eq_true]
    exact ⟨Node.same_self (hns n (by simp)), ih fun n hn => hns n (by simp [hn])⟩

namespace Function

variable {f g : Function}

/-- Functions with the same body differ at most by their names. -/
theorem eq_of_sameBody (h : g.sameBody f = true) (hf : Unconfigured f.nodes) :
    g = { f with name := g.name } := by
  obtain ⟨name, domain, inputs, paramCount, outputs, nodes, records⟩ := g
  simp only [sameBody, Bool.and_eq_true, beq_iff_eq] at h
  obtain ⟨⟨⟨⟨⟨rfl, rfl⟩, rfl⟩, rfl⟩, hnodes⟩, rfl⟩ := h
  rw [Function.mk.injEq]
  exact ⟨rfl, rfl, rfl, rfl, rfl, eq_of_isEqv_same hnodes hf, rfl⟩

theorem sameBody_self (hf : Unconfigured f.nodes) : f.sameBody f = true := by
  simp [sameBody, isEqv_same_self hf]

end Function

/-! ## Callees first -/

/-- Functions call only the functions `known` and those before them. -/
def CalleesFirst (known : List String) : List Function → Prop
  | [] => True
  | f :: rest =>
    (∀ n ∈ f.nodes, n.isCall = true → n.opType ∈ known) ∧ CalleesFirst (known ++ [f.name]) rest

theorem calleesFirst_append_iff {known : List String} {functions more : List Function} :
    CalleesFirst known (functions ++ more) ↔
      CalleesFirst known functions ∧ CalleesFirst (known ++ functions.map Function.name) more := by
  induction functions generalizing known with
  | nil => simp [CalleesFirst]
  | cons f rest ih => simp [CalleesFirst, ih, and_assoc]

/-! ## What translations say of nodes -/

section Nodes

variable {program : Program} {symbols : SymbolTable} {targets : Targets} {σ : Shared}
  {names : Nat → Option String} {info : String → Option Info} {t : Trace} {l : Level}
  {body tail : List Node} {decls : List Declaration}

theorem Declares.eq_identity {table : InitializerTable} {inputs declared : List String}
    {atoms : List Atom} (h : Declares table names inputs declared atoms tail decls) {n : Node}
    (hn : n ∈ tail) :
    ∃ nodeName x out, n = .plain "Identity" nodeName [x] [out] := by
  induction h with
  | nil => simp at hn
  | own source notInput notConstant notDeclared next ih => exact ih hn
  | @routed declared a x out nodeName rest nodes decls source aliased next ih =>
    rcases List.mem_cons.1 hn with rfl | hn
    · exact ⟨nodeName, x, out, rfl⟩
    · exact ih hn

/-- A node of a translation is plain or calls a function that calls refer to. -/
theorem Level.Translates.node_cases
    (h : l.Translates program symbols targets σ names info t body tail decls) {n : Node}
    (hn : n ∈ l.nodes) :
    (∃ op nodeName inputs outputs, n = .plain op nodeName inputs outputs) ∨
      ∃ c index types callee nodeName data outs, targets index types callee ∧
        data.length = types.length ∧
        n = Callable.node c callee.function.name nodeName (data ++ callee.captured) outs := by
  rw [h.nodes] at hn
  rcases List.mem_append.1 hn with hn | hn
  · obtain ⟨e, -, placed, hemits, -⟩ := mem_of_forall₂ h.translation.emits hn
    cases hemits with
    | primitive callee operation inputs outputs lhs rhs out => exact Or.inl ⟨_, _, _, _, rfl⟩
    | call calls known inputs outputs target count =>
      refine Or.inr ⟨_, _, _, _, _, _, _, target, ?_, rfl⟩
      simpa using (congrArg List.length inputs).symm
  · obtain ⟨nodeName, x, out, rfl⟩ := h.translation.declares.eq_identity hn
    exact Or.inl ⟨_, _, _, _, rfl⟩

theorem Level.Translates.unconfigured
    (h : l.Translates program symbols targets σ names info t body tail decls) :
    Unconfigured l.nodes := by
  intro n hn
  rcases h.node_cases hn with ⟨op, nodeName, inputs, outputs, rfl⟩ |
    ⟨c, index, types, callee, nodeName, data, outs, -, -, rfl⟩
  · rfl
  · rfl

theorem Level.Translates.localizes
    (h : l.Translates program symbols targets σ names info t body tail decls)
    (htargets : targets.CaptureFrom σ.table) {name : String} {f : Function}
    (hf : l.toFunction name (l.referencedInitializers σ.table) σ.table = .ok f) :
    l.Localizes (l.referencedInitializers σ.table) f
      (l.localNames (l.referencedInitializers σ.table)) := by
  obtain ⟨-, records, -, rfl⟩ := Level.toFunction_eq_ok.1 hf
  exact Level.localizes_functionWith h.nodup_inputs_captured (h.readsFrom_captured htargets) name
    records

end Nodes

theorem Level.Localizes.mem_nodes {l : Level} {params : List String} {f : Function} {r : Renaming}
    (h : l.Localizes params f r) {n : Node} (hn : n ∈ f.nodes) :
    ∃ m ∈ l.nodes, ∃ i, n = m.localized r i := by
  rw [h.nodes] at hn
  obtain ⟨⟨m, i⟩, hm, rfl⟩ := List.mem_map.1 hn
  exact ⟨m, (List.mem_zipIdx' hm).2 ▸ List.getElem_mem _, i, rfl⟩

namespace Implements

variable {program : Program} {settings : Params} {symbols : SymbolTable} {σ τ : Shared}
  {index : Nat} {types : List AbstractValue} {callee : Callee}

theorem member (h : Implements program settings symbols σ index types callee) :
    callee.function ∈ σ.functions := by
  cases h with
  | intro known trace inner translates function same member captured infos => exact member

/-- A function takes its arguments and the constants that are passed to it. -/
theorem length_inputs (h : Implements program settings symbols σ index types callee) :
    callee.function.inputs.length = types.length + callee.captured.length := by
  cases h with
  | @intro _ _ _ _ _ t l _ _ _ _ _ _ _ _ known trace inner translates
    function same member captured infos =>
    rw [captured] at function ⊢
    have hlocal := translates.localizes (captureFrom_of_inner inner) function
    have hinputs : t.inputs.length = l.inputs.length := by
      simpa using congrArg List.length translates.translation.inputs_eq
    rw [same, hlocal.inputs, List.length_map, List.length_append, ← hinputs,
      (Callable.tracer_spec trace).1, length_freshVars]

theorem unconfigured (h : Implements program settings symbols σ index types callee) :
    Unconfigured callee.function.nodes := by
  cases h with
  | intro known trace inner translates function same member captured infos =>
    rw [captured] at function
    rw [same]
    intro n hn
    obtain ⟨m, hm, i, rfl⟩ :=
      (translates.localizes (captureFrom_of_inner inner) function).mem_nodes hn
    exact translates.unconfigured m hm

end Implements

section Targets

variable {program : Program} {settings : Params} {symbols : SymbolTable} {σ : Shared}
  {targets : Targets} {names : Nat → Option String} {info : String → Option Info} {t : Trace}
  {l : Level} {body tail : List Node} {decls : List Declaration}

/-- A call in a finished level passes what its target takes. -/
theorem Level.Translates.exists_target
    (h : l.Translates program symbols targets σ names info t body tail decls)
    (inner : ∀ i ts g, targets i ts g → Implements program settings symbols σ i ts g) {n : Node}
    (hn : n ∈ l.nodes) (hcall : n.isCall = true) :
    ∃ g ∈ σ.functions, g.name = n.opType ∧ g.inputs.length = n.inputs.length := by
  rcases h.node_cases hn with
    ⟨op, nodeName, inputs, outputs, rfl⟩ |
    ⟨c, index, types, g, nodeName, data, outs, hg, hdata, rfl⟩
  · simp [Node.plain, Node.isCall, functionDomain] at hcall
  · refine ⟨g.function, (inner _ _ _ hg).member, rfl, ?_⟩
    rw [(inner _ _ _ hg).length_inputs]
    simp [Callable.node, Node.plain, hdata]

/-- A call in the function of a finished level passes what its target takes. -/
theorem Level.Translates.exists_target_of_toFunction
    (h : l.Translates program symbols targets σ names info t body tail decls)
    (inner : ∀ i ts g, targets i ts g → Implements program settings symbols σ i ts g)
    {name : String} {f : Function}
    (hf : l.toFunction name (l.referencedInitializers σ.table) σ.table = .ok f) {n : Node}
    (hn : n ∈ f.nodes) (hcall : n.isCall = true) :
    ∃ g ∈ σ.functions, g.name = n.opType ∧ g.inputs.length = n.inputs.length := by
  obtain ⟨m, hm, i, rfl⟩ := (h.localizes (Implements.captureFrom_of_inner inner) hf).mem_nodes hn
  obtain ⟨g, hg, hname, hlength⟩ := h.exists_target inner hm hcall
  exact ⟨g, hg, hname, by simp [Node.localized, hlength]⟩

end Targets

/-! ## Soundness of the table -/

namespace Shared

/-- What the table of functions keeps. -/
structure Sound (program : Program) (settings : Params) (symbols : SymbolTable) (σ : Shared) : Prop
    extends Tidy σ where
  distinct : σ.functions.Pairwise fun f g => f.sameBody g = false
  ordered : CalleesFirst [] σ.functions
  implemented : ∀ f ∈ σ.functions, ∃ index types callee,
    Implements program settings symbols σ index types callee ∧ callee.function = f

namespace Sound

variable {program : Program} {settings : Params} {symbols : SymbolTable} {σ τ : Shared}

theorem sameBody_self (h : σ.Sound program settings symbols) {f : Function} (hf : f ∈ σ.functions) :
    f.sameBody f = true := by
  obtain ⟨index, types, callee, hcallee, rfl⟩ := h.implemented f hf
  exact Function.sameBody_self hcallee.unconfigured

/-- No body is in the table twice. -/
theorem eq_of_sameBody (h : σ.Sound program settings symbols) {f g : Function}
    (hf : f ∈ σ.functions) (hg : g ∈ σ.functions) (hsame : f.sameBody g = true) : f = g := by
  have hfg : f = { g with name := f.name } := by
    obtain ⟨index, types, callee, hcallee, rfl⟩ := h.implemented g hg
    exact Function.eq_of_sameBody hsame hcallee.unconfigured
  have hgf : g.sameBody f = true := by
    rw [hfg]
    exact h.sameBody_self hg
  have hsymm : Std.Symm fun a b : Function => a.sameBody b = false ∨ b.sameBody a = false :=
    ⟨fun _ _ => Or.symm⟩
  have hdistinct : σ.functions.Pairwise fun a b => a.sameBody b = false ∨ b.sameBody a = false :=
    h.distinct.imp Or.inl
  by_contra hne
  have := hdistinct.forall hf hg hne
  simp [hsame, hgf] at this

/-- Two functions of the table have one name exactly if their bodies are the same. -/
theorem eq_iff_sameBody (h : σ.Sound program settings symbols) {f f' : Function} {x x' : String}
    (hf : { f with name := x } ∈ σ.functions) (hf' : { f' with name := x' } ∈ σ.functions) :
    x = x' ↔ f.sameBody f' = true := by
  constructor
  · intro hname
    have heq : ({ f with name := x } : Function) = { f' with name := x' } :=
      List.inj_on_of_nodup_map h.functions_nodup hf hf' hname
    have hself := h.sameBody_self hf
    nth_rewrite 2 [heq] at hself
    exact hself
  · intro hsame
    exact congrArg Function.name (h.eq_of_sameBody hf hf' hsame)

/-- Taking names and adding constants keeps the table as it is. -/
theorem grow (h : σ.Sound program settings symbols) (hle : σ.Le τ) (hτ : τ.Tidy)
    (hfunctions : τ.functions = σ.functions) : τ.Sound program settings symbols where
  toTidy := hτ
  distinct := hfunctions ▸ h.distinct
  ordered := hfunctions ▸ h.ordered
  implemented f hf := by
    obtain ⟨index, types, callee, hcallee, hfunction⟩ := h.implemented f (hfunctions ▸ hf)
    exact ⟨index, types, callee, hcallee.mono hle h.table_used, hfunction⟩

/-- A function with a new name and a new body that calls known functions can be appended. -/
theorem push (h : σ.Sound program settings symbols) (hle : σ.Le τ) (hτ : τ.Tidy) {f : Function}
    (hfunctions : τ.functions = σ.functions ++ [f]) (hnew : ∀ g ∈ σ.functions, g.sameBody f = false)
    (hcalls : ∀ n ∈ f.nodes, n.isCall = true → n.opType ∈ σ.functions.map Function.name)
    (hf : ∃ index types callee, Implements program settings symbols τ index types callee ∧
      callee.function = f) :
    τ.Sound program settings symbols where
  toTidy := hτ
  distinct := by
    rw [hfunctions, List.pairwise_append]
    exact ⟨h.distinct, List.pairwise_singleton _ _, by simpa using hnew⟩
  ordered := by
    rw [hfunctions, calleesFirst_append_iff]
    exact ⟨h.ordered, by simpa using hcalls, trivial⟩
  implemented g hg := by
    rw [hfunctions] at hg
    rcases List.mem_append.1 hg with hg | hg
    · obtain ⟨index, types, callee, hcallee, hfunction⟩ := h.implemented g hg
      exact ⟨index, types, callee, hcallee.mono hle h.table_used, hfunction⟩
    · obtain rfl : g = f := by simpa using hg
      exact hf

end Sound

end Shared

end TensorGraph
