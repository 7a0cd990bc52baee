import Mathlib.Data.List.Basic
import TensorGraph.Model.DeadNodes
import TensorGraph.Proofs.Scope

/-!
# Live nodes and reached functions

The nodes that a body's outputs need are found in one pass from the back. They read only names that
are defined before the body or by one of them (`ReadsFrom.liveNodes`), and they still produce the
outputs (`mem_outputs_liveNodes`).

Following calls ends when nothing new is reached, and a round for each function is enough for this
(`newlyReached_reachable`) : a reached function calls only what is reached
(`mem_reachable_of_call`).
-/

namespace TensorGraph

/-! ## Live nodes -/

section Live

variable {outputs defined defined' : List String} {nodes : List Node}

/-- The names that live nodes and `outputs` need. -/
def liveNames (outputs : List String) (nodes : List Node) : List String :=
  (liveFrom outputs nodes).2

/-- A node that has a live output stays, and one that has none goes. -/
theorem liveNodes_cons (outputs : List String) (n : Node) (rest : List Node) :
    (∃ x ∈ n.outputs, x ∈ liveNames outputs rest) ∧
      liveNodes outputs (n :: rest) = n :: liveNodes outputs rest ∧
        liveNames outputs (n :: rest) = n.inputs ++ liveNames outputs rest ∨
      (∀ x ∈ liveNames outputs rest, x ∉ n.outputs) ∧
      liveNodes outputs (n :: rest) = liveNodes outputs rest ∧
        liveNames outputs (n :: rest) = liveNames outputs rest := by
  unfold liveNames liveNodes
  by_cases h : n.outputs.any (liveFrom outputs rest).2.contains = true
  · exact Or.inl ⟨by simpa using h, by simp [liveFrom, h], by simp [liveFrom, h]⟩
  · refine Or.inr ⟨fun x hx hmem => h (List.any_eq_true.2 ⟨x, hmem, by simpa using hx⟩), ?_, ?_⟩ <;>
      simp [liveFrom, h]

theorem liveNodes_sublist (outputs : List String) (nodes : List Node) :
    (liveNodes outputs nodes).Sublist nodes := by
  induction nodes with
  | nil => exact .slnil
  | cons n rest ih =>
    obtain ⟨-, hnodes, -⟩ | ⟨-, hnodes, -⟩ := liveNodes_cons outputs n rest
    · rw [hnodes]
      exact ih.cons_cons n
    · rw [hnodes]
      exact ih.cons n

theorem subset_liveNames (outputs : List String) (nodes : List Node) :
    outputs ⊆ liveNames outputs nodes := by
  induction nodes with
  | nil => exact List.Subset.refl outputs
  | cons n rest ih =>
    obtain ⟨-, -, hnames⟩ | ⟨-, -, hnames⟩ := liveNodes_cons outputs n rest
    · rw [hnames]
      exact List.subset_append_of_subset_right _ ih
    · rwa [hnames]

/-- Of the names defined before a body, its live nodes read only live ones. -/
theorem ReadsFrom.live (h : ReadsFrom defined nodes)
    (hlive : ∀ x ∈ defined, x ∈ liveNames outputs nodes → x ∈ defined') :
    ReadsFrom defined' (liveNodes outputs nodes) := by
  induction nodes generalizing defined defined' with
  | nil => trivial
  | cons n rest ih =>
    obtain ⟨-, hnodes, hnames⟩ | ⟨hdead, hnodes, hnames⟩ := liveNodes_cons outputs n rest
    · rw [hnodes]
      rw [hnames] at hlive
      refine ⟨fun x hx => hlive x (h.1 x hx) (List.mem_append_left _ hx),
        ih h.2 fun x hx hxlive => ?_⟩
      rcases List.mem_append.1 hx with hx | hx
      · exact List.mem_append_left _ (hlive x hx (List.mem_append_right _ hxlive))
      · exact List.mem_append_right _ hx
    · rw [hnodes]
      rw [hnames] at hlive
      exact ih h.2 fun x hx hxlive =>
        hlive x ((List.mem_append.1 hx).resolve_right (hdead x hxlive)) hxlive

theorem ReadsFrom.liveNodes (h : ReadsFrom defined nodes) :
    ReadsFrom defined (liveNodes outputs nodes) :=
  h.live fun _ hx _ => hx

/-- An output that nodes produce is produced by live nodes. -/
theorem mem_outputs_liveNodes {x : String} (hx : x ∈ outputs)
    (hmade : x ∈ nodes.flatMap Node.outputs) :
    x ∈ (liveNodes outputs nodes).flatMap Node.outputs := by
  induction nodes with
  | nil => simp at hmade
  | cons n rest ih =>
    rw [List.flatMap_cons, List.mem_append] at hmade
    obtain ⟨-, hnodes, -⟩ | ⟨hdead, hnodes, -⟩ := liveNodes_cons outputs n rest
    · rw [hnodes, List.flatMap_cons, List.mem_append]
      exact hmade.imp_right ih
    · rw [hnodes]
      exact ih (hmade.resolve_left (hdead x (subset_liveNames outputs rest hx)))

end Live

/-! ## Reached functions -/

section Reach

variable {functions : List Function} {reached : List String}

theorem mem_callTargets {nodes : List Node} {name : String} :
    name ∈ callTargets nodes ↔ ∃ n ∈ nodes, n.isCall = true ∧ n.opType = name := by
  simp [callTargets, and_assoc]

theorem mem_newlyReached {name : String} : name ∈ newlyReached functions reached ↔
    (∃ f ∈ functions, f.name ∈ reached ∧ name ∈ callTargets f.nodes) ∧ name ∉ reached := by
  simp [newlyReached, and_assoc]

/-- The functions that are not reached. -/
def unreached (functions : List Function) (reached : List String) : List Function :=
  functions.filter fun f => !reached.contains f.name

theorem mem_unreached {f : Function} :
    f ∈ unreached functions reached ↔ f ∈ functions ∧ f.name ∉ reached := by
  simp [unreached]

/-- A round that reaches no new function is the last one that reaches a name. -/
theorem newlyReached_append_of_unreached
    (h : ∀ f ∈ functions, f.name ∈ newlyReached functions reached → f.name ∈ reached) :
    newlyReached functions (reached ++ newlyReached functions reached) = [] := by
  refine List.eq_nil_iff_forall_not_mem.2 fun name hname => ?_
  obtain ⟨⟨f, hf, hreached, hcall⟩, hnew⟩ := mem_newlyReached.1 hname
  rw [List.mem_append, not_or] at hnew
  have hf' : f.name ∈ reached := (List.mem_append.1 hreached).elim id (h f hf)
  exact hnew.2 (mem_newlyReached.2 ⟨⟨f, hf, hf', hcall⟩, hnew.1⟩)

/-- A round that reaches a new function leaves fewer to reach. -/
theorem length_unreached_append_lt {f : Function} {more : List String} (hf : f ∈ functions)
    (hnew : f.name ∉ reached) (hmore : f.name ∈ more) :
    (unreached functions (reached ++ more)).length < (unreached functions reached).length := by
  have heq : unreached functions (reached ++ more) =
      (unreached functions reached).filter fun g => !more.contains g.name := by
    rw [unreached, unreached, List.filter_filter]
    refine List.filter_congr fun g _ => ?_
    simp [Bool.and_comm]
  rw [heq]
  refine List.length_filter_lt_length_iff_exists.2 ⟨f, mem_unreached.2 ⟨hf, hnew⟩,
    by simpa using hmore⟩

theorem newlyReached_reachFrom (rounds : Nat)
    (h : (unreached functions reached).length < rounds ∨ newlyReached functions reached = []) :
    newlyReached functions (reachFrom functions rounds reached) = [] := by
  induction rounds generalizing reached with
  | zero => exact h.resolve_left (Nat.not_lt_zero _)
  | succ rounds ih =>
    simp only [reachFrom]
    split
    · next hgrown => exact List.isEmpty_iff.1 hgrown
    · next hgrown =>
      have hlength := h.resolve_right fun h => hgrown (List.isEmpty_iff.2 h)
      refine ih ?_
      by_cases hnew : ∃ f ∈ functions, f.name ∈ newlyReached functions reached ∧ f.name ∉ reached
      · obtain ⟨f, hf, hgrown, hnew⟩ := hnew
        exact Or.inl (Nat.lt_of_lt_of_le (length_unreached_append_lt hf hnew hgrown)
          (Nat.le_of_lt_succ hlength))
      · simp only [not_exists, not_and, not_not] at hnew
        exact Or.inr (newlyReached_append_of_unreached hnew)

/-- Nothing is left to reach. -/
theorem newlyReached_reachable (functions : List Function) (start : List String) :
    newlyReached functions (reachable functions start) = [] := by
  refine newlyReached_reachFrom functions.length ?_
  by_cases h : ∃ f ∈ functions, f.name ∈ start
  · obtain ⟨f, hf, hstart⟩ := h
    exact Or.inl (List.length_filter_lt_length_iff_exists.2 ⟨f, hf, by simpa using hstart⟩)
  · -- no function is reached at all, so there are no calls to follow
    refine Or.inr (List.eq_nil_iff_forall_not_mem.2 fun name hname => h ?_)
    obtain ⟨⟨f, hf, hstart, -⟩, -⟩ := mem_newlyReached.1 hname
    exact ⟨f, hf, hstart⟩

theorem subset_reachable (functions : List Function) (start : List String) :
    start ⊆ reachable functions start := by
  unfold reachable
  induction functions.length generalizing start with
  | zero => exact List.Subset.refl start
  | succ rounds ih =>
    simp only [reachFrom]
    split
    · exact List.Subset.refl start
    · exact List.Subset.trans (List.subset_append_left _ _) (ih _)

/-- A reached function calls only what is reached. -/
theorem mem_reachable_of_call {start : List String} {f : Function} (hf : f ∈ functions)
    (hreached : f.name ∈ reachable functions start) {n : Node} (hn : n ∈ f.nodes)
    (hcall : n.isCall = true) :
    n.opType ∈ reachable functions start := by
  by_contra hnew
  have hmem : n.opType ∈ newlyReached functions (reachable functions start) :=
    mem_newlyReached.2 ⟨⟨f, hf, hreached, mem_callTargets.2 ⟨n, hn, hcall, rfl⟩⟩, hnew⟩
  rw [newlyReached_reachable] at hmem
  simp at hmem

/-- What is left of functions when those with the names `reached` stay. -/
def keptFunctions (functions : List Function) (reached : List String) : List Function :=
  (functions.map Function.withoutDeadNodes).filter fun f => reached.contains f.name

theorem keptFunctions_reverse (functions : List Function) (reached : List String) :
    keptFunctions functions.reverse reached = (keptFunctions functions reached).reverse := by
  rw [keptFunctions, keptFunctions, List.map_reverse, List.filter_reverse]

theorem findFunction?_keptFunctions (functions : List Function) {name : String}
    (hname : name ∈ reached) :
    findFunction? (keptFunctions functions reached) name =
      (findFunction? functions name).map Function.withoutDeadNodes := by
  rw [findFunction?, findFunction?, keptFunctions, List.find?_filter, List.find?_map]
  congr 2
  funext f
  by_cases hf : f.name = name
  · simp [Function.withoutDeadNodes, hf, hname]
  · simp [Function.withoutDeadNodes, hf]

end Reach

/-- The names that the live nodes of a model reach. -/
def Model.reached (m : Model) : List String :=
  reachable (m.functions.map Function.withoutDeadNodes) (callTargets m.withoutDeadNodes.graph.nodes)

theorem Model.functions_withoutDeadNodes (m : Model) :
    m.withoutDeadNodes.functions = keptFunctions m.functions m.reached := rfl

theorem Model.mem_reached {m : Model} {n : Node}
    (hn : n ∈ liveNodes m.graph.outputNames m.graph.nodes) (hcall : n.isCall = true) :
    n.opType ∈ m.reached :=
  subset_reachable _ _ (mem_callTargets.2 ⟨n, hn, hcall, rfl⟩)

theorem Model.mem_reached_of_call {m : Model} {f : Function} (hf : f ∈ m.functions)
    (hreached : f.name ∈ m.reached) {n : Node} (hn : n ∈ f.withoutDeadNodes.nodes)
    (hcall : n.isCall = true) : n.opType ∈ m.reached :=
  mem_reachable_of_call (List.mem_map_of_mem hf) hreached hn hcall

end TensorGraph
