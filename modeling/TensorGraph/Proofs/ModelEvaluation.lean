import Mathlib.Logic.Function.Basic
import TensorGraph.Proofs.Validity

/-!
# Evaluating models

An interpretation gives constants and operations a meaning, and a model is evaluated node after node
from the values of its constants and inputs (`Runs`, `Model.Evaluates`). A call evaluates the
function that it names on the values of its inputs. There is at most one result
(`Model.Evaluates.unique`).

A body needs only the names that it reads (`Runs.frame`), and its outputs need only its live nodes
(`Runs.live`). So pruning and dead-node elimination keep the result (`Model.Evaluates.prune`,
`Model.Evaluates.withoutDeadNodes`).
-/

namespace TensorGraph

/-- What constants and operations mean. -/
structure Interpretation (V : Type) where
  constant : Tensor → V
  /-- The outputs of an operation, by its type, domain, attributes and inputs. -/
  apply : String → String → List (String × Attribute) → List V → Option (List V)

/-! ## Values of names -/

/-- The values that names have. -/
abbrev Env (V : Type) := String → Option V

namespace Env

variable {V : Type} {env env₁ : Env V} {names : List String} {values : List V} {x : String}

/-- No name has a value. -/
def empty : Env V := fun _ => none

/-- Give names values, in order. -/
def define (env : Env V) : List String → List V → Env V
  | x :: xs, v :: vs => define (Function.update env x (some v)) xs vs
  | _, _ => env

theorem define_of_not_mem (hx : x ∉ names) : env.define names values x = env x := by
  induction names generalizing env values with
  | nil => rfl
  | cons y ys ih =>
    rw [List.mem_cons, not_or] at hx
    cases values with
    | nil => rfl
    | cons v vs => rw [define, ih hx.2, Function.update_of_ne hx.1]

theorem define_congr (hlength : values.length = names.length) (h : env x = env₁ x ∨ x ∈ names) :
    env.define names values x = env₁.define names values x := by
  induction names generalizing env env₁ values with
  | nil => simpa [define] using h
  | cons y ys ih =>
    cases values with
    | nil => simp at hlength
    | cons v vs =>
      refine ih (by simpa using hlength) ?_
      by_cases hxy : x = y
      · simp [hxy]
      · rw [Function.update_of_ne hxy, Function.update_of_ne hxy]
        exact h.imp_right fun hmem => (List.mem_cons.1 hmem).resolve_left hxy

theorem map_define (hnodup : names.Nodup) (hlength : values.length = names.length) :
    names.map (env.define names values) = values.map some := by
  induction names generalizing env values with
  | nil =>
    obtain rfl : values = [] := by simpa using hlength
    rfl
  | cons y ys ih =>
    rw [List.nodup_cons] at hnodup
    cases values with
    | nil => simp at hlength
    | cons v vs =>
      rw [List.map_cons, List.map_cons, define, define_of_not_mem hnodup.1, Function.update_self,
        ih hnodup.2 (by simpa using hlength)]

/-- Names that are left out do not count. -/
theorem define_filter {α : Type} {p : α → Bool} {name : α → String} {value : α → V}
    (hp : ∀ a, name a = x → p a = true) (as : List α) :
    env.define ((as.filter p).map name) ((as.filter p).map value) x =
      env.define (as.map name) (as.map value) x := by
  induction as generalizing env with
  | nil => rfl
  | cons a as ih =>
    by_cases ha : p a = true
    · rw [List.filter_cons_of_pos ha]
      exact ih
    · rw [List.filter_cons_of_neg ha, ih]
      have hx : x ≠ name a := fun hx => ha (hp a hx.symm)
      by_cases hmem : x ∈ as.map name
      · exact define_congr (by simp) (Or.inr hmem)
      · rw [List.map_cons, List.map_cons, define, define_of_not_mem hmem, define_of_not_mem hmem,
          Function.update_of_ne hx]

end Env

/-! ## Runs of nodes -/

section Runs

variable {V : Type}

/-- Evaluating nodes in order leads from some values of names to others. -/
inductive Runs (I : Interpretation V) (functions : List Function) :
    Env V → List Node → Env V → Prop where
  | nil {env : Env V} : Runs I functions env [] env
  | plain {env env' : Env V} {n : Node} {rest : List Node} {args outs : List V}
      (isCall : n.isCall = false) (inputs : n.inputs.map env = args.map some)
      (result : I.apply n.opType n.domain n.attributes args = some outs)
      (count : outs.length = n.outputs.length)
      (next : Runs I functions (env.define n.outputs outs) rest env') :
      Runs I functions env (n :: rest) env'
  | call {env inner env' : Env V} {n : Node} {rest : List Node} {f : Function} {args outs : List V}
      (isCall : n.isCall = true) (target : findFunction? functions n.opType = some f)
      (inputs : n.inputs.map env = args.map some) (arity : args.length = f.inputs.length)
      (body : Runs I functions (Env.empty.define f.inputs args) f.nodes inner)
      (result : f.outputs.map inner = outs.map some) (count : outs.length = n.outputs.length)
      (next : Runs I functions (env.define n.outputs outs) rest env') :
      Runs I functions env (n :: rest) env'

namespace Runs

variable {I : Interpretation V} {functions : List Function} {env env' env₁ : Env V}
  {nodes : List Node}

theorem map_some_inj {args args' : List V} (h : args.map some = args'.map some) : args = args' :=
  List.map_injective_iff.2 (fun _ _ => Option.some.inj) h

theorem deterministic (h : Runs I functions env nodes env') (h' : Runs I functions env nodes env₁) :
    env' = env₁ := by
  induction h generalizing env₁ with
  | nil =>
    cases h'
    rfl
  | plain isCall inputs result count next ih =>
    cases h' with
    | plain isCall' inputs' result' count' next' =>
      obtain rfl := map_some_inj (inputs.symm.trans inputs')
      obtain rfl := Option.some.inj (result.symm.trans result')
      exact ih next'
    | call isCall' => simp [isCall] at isCall'
  | call isCall target inputs arity body result count next ihbody ih =>
    cases h' with
    | plain isCall' => simp [isCall] at isCall'
    | call isCall' target' inputs' arity' body' result' count' next' =>
      obtain rfl := Option.some.inj (target.symm.trans target')
      obtain rfl := map_some_inj (inputs.symm.trans inputs')
      obtain rfl := ihbody body'
      obtain rfl := map_some_inj (result.symm.trans result')
      exact ih next'

theorem map_eq_of_agree {names : List String} {args : List V} (hagree : ∀ x ∈ names, env x = env₁ x)
    (h : names.map env = args.map some) : names.map env₁ = args.map some := by
  rw [← h]
  exact List.map_congr_left fun x hx => (hagree x hx).symm

theorem agree_define {n : Node} {rest : List Node} {outs : List V}
    (count : outs.length = n.outputs.length) {x : String}
    (hx : env x = env₁ x ∨ x ∈ (n :: rest).flatMap Node.outputs) :
    env.define n.outputs outs x = env₁.define n.outputs outs x ∨ x ∈ rest.flatMap Node.outputs := by
  rw [List.flatMap_cons, List.mem_append, ← or_assoc] at hx
  exact hx.imp_left (Env.define_congr count)

/-- Nodes need only the names that they read: on other values of names they run too, and what agreed
before or is an output agrees in the end. -/
theorem frame (h : Runs I functions env nodes env')
    (hread : ∀ x ∈ nodes.flatMap Node.inputs, env x = env₁ x) :
    ∃ env₁', Runs I functions env₁ nodes env₁' ∧
      ∀ x, env x = env₁ x ∨ x ∈ nodes.flatMap Node.outputs → env' x = env₁' x := by
  induction h generalizing env₁ with
  | nil => exact ⟨env₁, .nil, by simp⟩
  | plain isCall inputs result count next ih =>
    simp only [List.flatMap_cons, List.forall_mem_append] at hread
    obtain ⟨env₁', hrun, hagree⟩ := ih fun x hx => Env.define_congr count (Or.inl (hread.2 x hx))
    exact ⟨env₁', .plain isCall (map_eq_of_agree hread.1 inputs) result count hrun,
      fun x hx => hagree x (agree_define count hx)⟩
  | call isCall target inputs arity body result count next _ ih =>
    simp only [List.flatMap_cons, List.forall_mem_append] at hread
    obtain ⟨env₁', hrun, hagree⟩ := ih fun x hx => Env.define_congr count (Or.inl (hread.2 x hx))
    exact ⟨env₁', .call isCall target (map_eq_of_agree hread.1 inputs) arity body result count hrun,
      fun x hx => hagree x (agree_define count hx)⟩

/-- The outputs of a body need its live nodes only, and of the functions that these reach the live
nodes. -/
theorem live {reached outputs : List String} (h : Runs I functions env nodes env')
    (hclosed : ∀ f ∈ functions, f.name ∈ reached → ∀ n ∈ f.withoutDeadNodes.nodes, n.isCall = true →
      n.opType ∈ reached)
    (hreached : ∀ n ∈ liveNodes outputs nodes, n.isCall = true → n.opType ∈ reached)
    (hlive : ∀ x ∈ liveNames outputs nodes, env x = env₁ x) :
    ∃ env₁', Runs I (keptFunctions functions reached) env₁ (liveNodes outputs nodes) env₁' ∧
      ∀ x ∈ outputs, env' x = env₁' x := by
  induction h generalizing env₁ outputs with
  | nil => exact ⟨env₁, .nil, hlive⟩
  | @plain env env' n rest args outs isCall inputs result count next ih =>
    obtain ⟨-, hnodes, hnames⟩ | ⟨hdead, hnodes, hnames⟩ := liveNodes_cons outputs n rest
    · rw [hnodes, List.forall_mem_cons] at hreached
      rw [hnames, List.forall_mem_append] at hlive
      obtain ⟨env₁', hrun, hagree⟩ :=
        ih hreached.2 fun x hx => Env.define_congr count (Or.inl (hlive.2 x hx))
      exact ⟨env₁', hnodes ▸ .plain isCall (map_eq_of_agree hlive.1 inputs) result count hrun,
        hagree⟩
    · rw [hnodes] at hreached ⊢
      rw [hnames] at hlive
      exact ih hreached fun x hx => by rw [Env.define_of_not_mem (hdead x hx), hlive x hx]
  | @call env inner env' n rest f args outs isCall target inputs arity body result count
    next ihbody ih =>
    obtain ⟨-, hnodes, hnames⟩ | ⟨hdead, hnodes, hnames⟩ := liveNodes_cons outputs n rest
    · rw [hnodes, List.forall_mem_cons] at hreached
      rw [hnames, List.forall_mem_append] at hlive
      obtain ⟨env₁', hrun, hagree⟩ :=
        ih hreached.2 fun x hx => Env.define_congr count (Or.inl (hlive.2 x hx))
      have hname : f.name = n.opType := by simpa using List.find?_some target
      have hcallee : f.name ∈ reached := hname ▸ hreached.1 isCall
      obtain ⟨inner', hbody, hresult⟩ :=
        ihbody (hclosed f (List.mem_of_find?_eq_some target) hcallee) fun _ _ => rfl
      have htarget :
          findFunction? (keptFunctions functions reached) n.opType = some f.withoutDeadNodes := by
        rw [findFunction?_keptFunctions functions (hreached.1 isCall), target, Option.map_some]
      exact ⟨env₁', hnodes ▸ .call isCall htarget (map_eq_of_agree hlive.1 inputs) arity hbody
        (map_eq_of_agree hresult result) count hrun, hagree⟩
    · rw [hnodes] at hreached ⊢
      rw [hnames] at hlive
      exact ih hreached fun x hx => by rw [Env.define_of_not_mem (hdead x hx), hlive x hx]

end Runs

end Runs

/-! ## Results of models -/

namespace Model

variable {V : Type} {I : Interpretation V} {m : Model} {values results results' : List V}

/-- The values of constants and inputs. -/
def initialEnv (m : Model) (I : Interpretation V) (values : List V) : Env V :=
  (Env.empty.define m.graph.initializerNames (m.graph.initializers.map fun i =>
    I.constant i.tensor)).define m.graph.inputNames values

/-- The model has these results on these values of its inputs. -/
def Evaluates (m : Model) (I : Interpretation V) (values results : List V) : Prop :=
  values.length = m.graph.inputs.length ∧ ∃ env,
    Runs I m.functions (m.initialEnv I values) m.graph.nodes env ∧
    m.graph.outputNames.map env = results.map some

theorem Evaluates.unique (h : m.Evaluates I values results) (h' : m.Evaluates I values results') :
    results = results' := by
  obtain ⟨-, env, hrun, hresults⟩ := h
  obtain ⟨-, env', hrun', hresults'⟩ := h'
  obtain rfl := hrun.deterministic hrun'
  exact Runs.map_some_inj (hresults.symm.trans hresults')

theorem initialEnv_prune {x : String} (hvalues : values.length = m.graph.inputs.length)
    (hx : x ∈ m.graph.nodes.flatMap Node.inputs ∨ x ∈ m.graph.inputNames) :
    m.initialEnv I values x = m.prune.initialEnv I values x := by
  have hcount : values.length = m.graph.inputNames.length := by
    simpa [Graph.inputNames] using hvalues
  refine Env.define_congr hcount
    (hx.imp_left fun hread => (Env.define_filter (fun i hi => ?_) _).symm)
  rw [readsInitializer, List.contains_iff_mem, hi]
  exact hread

/-- Without unread constants the results are the same. -/
theorem Evaluates.prune (h : m.Evaluates I values results) (hm : m.Proper) :
    m.prune.Evaluates I values results := by
  obtain ⟨hvalues, env, hrun, hresults⟩ := h
  obtain ⟨env', hrun', hagree⟩ := hrun.frame fun x hx => initialEnv_prune hvalues (Or.inl hx)
  refine ⟨hvalues, env', hrun', Runs.map_eq_of_agree (fun x hx => hagree x ?_) hresults⟩
  rcases List.mem_append.1 (hm.produced x hx) with hx | hx
  · exact Or.inl (initialEnv_prune hvalues (Or.inr hx))
  · exact Or.inr hx

/-- Without dead nodes the results are the same. -/
theorem Evaluates.withoutDeadNodes (h : m.Evaluates I values results) :
    m.withoutDeadNodes.Evaluates I values results := by
  obtain ⟨hvalues, env, hrun, hresults⟩ := h
  obtain ⟨env', hrun', hagree⟩ :=
    hrun.live (fun f hf hreached n hn => mem_reached_of_call hf hreached hn)
      (fun n hn => mem_reached hn) fun _ _ => rfl
  exact ⟨hvalues, env', hrun', Runs.map_eq_of_agree hagree hresults⟩

/-- What a conversion makes of a lowered model has the same results. -/
theorem Evaluates.finished (h : m.Evaluates I values results) (hm : m.Proper)
    (optimizer : Optimizer) (options : ConversionOptions) :
    (m.finished optimizer options).Evaluates I values results := by
  have hpruned := h.prune hm
  unfold Model.finished
  split
  · cases optimizer with
    | noop => exact hpruned
    | deadNodeElimination => exact hpruned.withoutDeadNodes.prune hm.prune.withoutDeadNodes
  · exact hpruned

end Model

end TensorGraph
