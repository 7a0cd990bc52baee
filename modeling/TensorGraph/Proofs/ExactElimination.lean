import Mathlib.Logic.Relation
import TensorGraph.Proofs.Elimination

/-!
# What dead-node elimination removes

A node contributes to the outputs of its body if a chain of nodes, each reading an output of the one
before it, leads from it to one that produces an output (`Contributes`). The pass from the back
keeps the nodes that contribute and no others (`liveNodes_eq_contributors`) : a name is live exactly
if it is an output or a contributing node reads it (`mem_liveNames_iff`).

Of the functions those stay that contributing calls lead to (`Model.mem_reached_iff`). The loop that
looks for them stops, also where functions call each other or calls name no function
(`followsCalls_reachable`).

What is left contributes, and what is called is left, so a second run removes nothing
(`Model.eliminateDead_eliminateDead`).
-/

namespace TensorGraph

/-! ## Chains of nodes -/

/-- A node feeds a later one that reads one of its outputs. -/
def Feeds (nodes : List Node) (i j : Nat) : Prop :=
  i < j ∧ ∃ n m, nodes[i]? = some n ∧ nodes[j]? = some m ∧ ∃ x ∈ n.outputs, x ∈ m.inputs

/-- A chain of nodes leads from a place to a node that produces an output. -/
def Contributes (outputs : List String) (nodes : List Node) (i : Nat) : Prop :=
  ∃ j n, Relation.ReflTransGen (Feeds nodes) i j ∧ nodes[j]? = some n ∧ ∃ x ∈ n.outputs, x ∈ outputs

open Classical in
/-- The nodes that contribute to `outputs`, in order. -/
noncomputable def contributors (outputs : List String) (nodes : List Node) : List Node :=
  (nodes.zipIdx.filter fun entry => Contributes outputs nodes entry.2).map Prod.fst

/-- A name is an output, or a contributing node reads it. -/
def Needed (outputs : List String) (nodes : List Node) (x : String) : Prop :=
  x ∈ outputs ∨ ∃ i n, nodes[i]? = some n ∧ Contributes outputs nodes i ∧ x ∈ n.inputs

section Chains

variable {outputs : List String} {n : Node} {rest : List Node} {i j : Nat}

theorem feeds_cons_succ : Feeds (n :: rest) (i + 1) (j + 1) ↔ Feeds rest i j := by
  simp [Feeds]

/-- The first node feeds those that read it. -/
theorem feeds_cons_zero :
    Feeds (n :: rest) 0 (j + 1) ↔ ∃ m, rest[j]? = some m ∧ ∃ x ∈ n.outputs, x ∈ m.inputs := by
  simp [Feeds]

/-- A chain only goes on. -/
theorem not_feeds_zero {nodes : List Node} : ¬ Feeds nodes i 0 := fun h => Nat.not_lt_zero i h.1

theorem reflTransGen_feeds_cons_succ :
    Relation.ReflTransGen (Feeds (n :: rest)) (i + 1) j ↔
      ∃ k, j = k + 1 ∧ Relation.ReflTransGen (Feeds rest) i k := by
  constructor
  · intro h
    induction h with
    | refl => exact ⟨i, rfl, .refl⟩
    | @tail j k _ hfeeds ih =>
      obtain ⟨j, rfl, hchain⟩ := ih
      cases k with
      | zero => exact absurd hfeeds not_feeds_zero
      | succ k => exact ⟨k, rfl, hchain.tail (feeds_cons_succ.1 hfeeds)⟩
  · rintro ⟨k, rfl, h⟩
    exact h.lift (· + 1) fun _ _ => feeds_cons_succ.2

theorem contributes_cons_succ :
    Contributes outputs (n :: rest) (i + 1) ↔ Contributes outputs rest i := by
  simp only [Contributes, reflTransGen_feeds_cons_succ]
  constructor
  · rintro ⟨_, m, ⟨k, rfl, hchain⟩, hm, hproduces⟩
    exact ⟨k, m, hchain, by simpa using hm, hproduces⟩
  · rintro ⟨k, m, hchain, hm, hproduces⟩
    exact ⟨k + 1, m, ⟨k, rfl, hchain⟩, by simpa using hm, hproduces⟩

/-- The first node contributes if one of its outputs is needed after it. -/
theorem contributes_cons_zero :
    Contributes outputs (n :: rest) 0 ↔ ∃ x ∈ n.outputs, Needed outputs rest x := by
  constructor
  · rintro ⟨j, last, hchain, hlast, hproduces⟩
    rcases hchain.cases_head with rfl | ⟨k, hfeeds, hchain⟩
    · obtain rfl : n = last := by simpa using hlast
      obtain ⟨x, hx, houtput⟩ := hproduces
      exact ⟨x, hx, Or.inl houtput⟩
    · cases k with
      | zero => exact absurd hfeeds not_feeds_zero
      | succ k =>
        obtain ⟨m, hm, x, hx, hread⟩ := feeds_cons_zero.1 hfeeds
        have hcontributes : Contributes outputs (n :: rest) (k + 1) :=
          ⟨j, last, hchain, hlast, hproduces⟩
        exact ⟨x, hx, Or.inr ⟨k, m, hm, contributes_cons_succ.1 hcontributes, hread⟩⟩
  · rintro ⟨x, hx, houtput | ⟨j, m, hm, hcontributes, hread⟩⟩
    · exact ⟨0, n, .refl, rfl, x, hx, houtput⟩
    · obtain ⟨k, last, hchain, hlast⟩ := contributes_cons_succ (n := n).2 hcontributes
      exact ⟨k, last, hchain.head (feeds_cons_zero.2 ⟨m, hm, x, hx, hread⟩), hlast⟩

theorem needed_cons {x : String} :
    Needed outputs (n :: rest) x ↔ Contributes outputs (n :: rest) 0 ∧ x ∈ n.inputs ∨
      Needed outputs rest x := by
  rw [Needed, ← Nat.or_exists_add_one, or_left_comm]
  simp [Needed, contributes_cons_succ]

open Classical in
theorem contributors_cons (outputs : List String) (n : Node) (rest : List Node) :
    contributors outputs (n :: rest) =
      if Contributes outputs (n :: rest) 0 then n :: contributors outputs rest
        else contributors outputs rest := by
  have hrest :
      ((rest.zipIdx 1).filter fun entry => Contributes outputs (n :: rest) entry.2).map Prod.fst =
      contributors outputs rest := by
    rw [List.zipIdx_succ, List.filter_map, List.map_map]
    simp [contributors, Function.comp_def, contributes_cons_succ]
  rw [← hrest, contributors, List.zipIdx_cons]
  split_ifs with h
  · simp [h]
  · simp [h]

end Chains

/-! ## Live nodes -/

section Live

variable {outputs : List String} {nodes : List Node}

theorem mem_liveNames_iff {x : String} : x ∈ liveNames outputs nodes ↔ Needed outputs nodes x := by
  induction nodes generalizing x with
  | nil => simp [liveNames, liveFrom, Needed]
  | cons n rest ih =>
    simp only [needed_cons, contributes_cons_zero, ← ih]
    obtain ⟨hlive, -, hnames⟩ | ⟨hdead, -, hnames⟩ := liveNodes_cons outputs n rest
    · simp [hnames, hlive]
    · have hnot : ¬∃ x ∈ n.outputs, x ∈ liveNames outputs rest := by
        rintro ⟨x, hx, hlive⟩
        exact hdead x hlive hx
      simp [hnames, hnot]

/-- The pass from the back keeps the nodes that contribute. -/
theorem liveNodes_eq_contributors (outputs : List String) (nodes : List Node) :
    liveNodes outputs nodes = contributors outputs nodes := by
  induction nodes with
  | nil => rfl
  | cons n rest ih =>
    simp only [contributors_cons, contributes_cons_zero, ← mem_liveNames_iff, ← ih]
    obtain ⟨hlive, hnodes, -⟩ | ⟨hdead, hnodes, -⟩ := liveNodes_cons outputs n rest
    · rw [if_pos hlive, hnodes]
    · rw [if_neg, hnodes]
      rintro ⟨x, hx, hlive⟩
      exact hdead x hlive hx

/-- The nodes that stay need the same names, and all of them stay. -/
theorem liveFrom_liveNodes (outputs : List String) (nodes : List Node) :
    liveFrom outputs (liveNodes outputs nodes) = liveFrom outputs nodes := by
  induction nodes with
  | nil => rfl
  | cons n rest ih =>
    obtain ⟨-, hnodes, -⟩ | ⟨-, hnodes, hnames⟩ := liveNodes_cons outputs n rest
    · rw [hnodes, liveFrom, liveFrom, ih]
    · rw [hnodes, ih]
      exact Prod.ext hnodes.symm hnames.symm

theorem liveNodes_liveNodes (outputs : List String) (nodes : List Node) :
    liveNodes outputs (liveNodes outputs nodes) = liveNodes outputs nodes :=
  congrArg Prod.fst (liveFrom_liveNodes outputs nodes)

theorem Function.withoutDeadNodes_withoutDeadNodes (f : Function) :
    f.withoutDeadNodes.withoutDeadNodes = f.withoutDeadNodes := by
  simp [withoutDeadNodes, liveNodes_liveNodes]

end Live

/-! ## Reached functions -/

/-- A run of the loop that follows calls, from the names `reached` to the names that it ends with.
It goes on while a round reaches names that were not reached before. -/
inductive FollowsCalls (functions : List Function) : List String → List String → Prop
  | stop {reached : List String} (done : newlyReached functions reached = []) :
      FollowsCalls functions reached reached
  | again {reached final : List String} (grown : newlyReached functions reached ≠ [])
      (next : FollowsCalls functions (reached ++ newlyReached functions reached) final) :
      FollowsCalls functions reached final

section Reach

variable {functions : List Function} {reached final : List String}

theorem followsCalls_reachFrom {rounds : Nat}
    (h : newlyReached functions (reachFrom functions rounds reached) = []) :
    FollowsCalls functions reached (reachFrom functions rounds reached) := by
  induction rounds generalizing reached with
  | zero => exact .stop h
  | succ rounds ih =>
    simp only [reachFrom] at h ⊢
    split_ifs at h ⊢ with hgrown
    · exact .stop (List.isEmpty_iff.1 hgrown)
    · exact .again (fun hnil => hgrown (List.isEmpty_iff.2 hnil)) (ih h)

/-- The loop stops, whatever functions call. -/
theorem followsCalls_reachable (functions : List Function) (start : List String) :
    FollowsCalls functions start (reachable functions start) :=
  followsCalls_reachFrom (newlyReached_reachable functions start)

/-- What holds of the first names and goes over from a function to its callees holds of all names
that are reached. -/
theorem FollowsCalls.forall_mem {P : String → Prop} (h : FollowsCalls functions reached final)
    (hcall : ∀ f ∈ functions, P f.name → ∀ x ∈ callTargets f.nodes, P x)
    (hreached : ∀ x ∈ reached, P x) :
    ∀ x ∈ final, P x := by
  induction h with
  | stop => exact hreached
  | again _ _ ih =>
    refine ih fun x hx => ?_
    rcases List.mem_append.1 hx with hx | hx
    · exact hreached x hx
    · obtain ⟨⟨f, hf, hname, hx⟩, -⟩ := mem_newlyReached.1 hx
      exact hcall f hf (hreached _ hname) x hx

end Reach

namespace Model

variable {m : Model} {name : String}

/-- The names that contributing calls lead to, from the graph on and through functions. -/
inductive Reaches (m : Model) : String → Prop
  | graph {n : Node} (live : n ∈ contributors m.graph.outputNames m.graph.nodes)
      (call : n.isCall = true) : m.Reaches n.opType
  | function {f : Function} {n : Node} (member : f ∈ m.functions) (reached : m.Reaches f.name)
      (live : n ∈ contributors f.outputs f.nodes) (call : n.isCall = true) : m.Reaches n.opType

theorem mem_reached_iff : name ∈ m.reached ↔ m.Reaches name := by
  constructor
  · refine (followsCalls_reachable _ _).forall_mem ?_ ?_ name
    · intro f hf hreached x hx
      obtain ⟨g, hg, rfl⟩ := List.mem_map.1 hf
      obtain ⟨n, hn, hcall, rfl⟩ := mem_callTargets.1 hx
      exact .function hg hreached (liveNodes_eq_contributors g.outputs g.nodes ▸ hn) hcall
    · intro x hx
      obtain ⟨n, hn, hcall, rfl⟩ := mem_callTargets.1 hx
      exact .graph (liveNodes_eq_contributors m.graph.outputNames m.graph.nodes ▸ hn) hcall
  · intro h
    induction h with
    | graph live call => exact mem_reached (by rwa [liveNodes_eq_contributors]) call
    | @function f n member _ live call ih =>
      rw [← liveNodes_eq_contributors] at live
      exact mem_reached_of_call member ih live call

open Classical in
theorem functions_eliminateDead (m : Model) :
    m.eliminateDead.functions = (m.functions.filter fun f => m.Reaches f.name).map
      Function.withoutDeadNodes := by
  have hkept : m.eliminateDead.functions =
      (m.functions.filter fun f => m.reached.contains f.name).map Function.withoutDeadNodes :=
        List.filter_map
  rw [hkept]
  exact congrArg _ (List.filter_congr fun f _ => by simp [mem_reached_iff])

theorem mem_functions_eliminateDead {g : Function} :
    g ∈ m.eliminateDead.functions ↔ ∃ f ∈ m.functions, m.Reaches f.name ∧
      f.withoutDeadNodes = g := by
  simp [functions_eliminateDead, and_assoc]

/-- What is called is left, so names that were reached are reached again. -/
theorem Reaches.eliminateDead (h : m.Reaches name) : m.eliminateDead.Reaches name := by
  induction h with
  | @graph n live call =>
    refine .graph ?_ call
    rw [← liveNodes_eq_contributors] at live ⊢
    exact (liveNodes_liveNodes m.graph.outputNames m.graph.nodes).symm ▸ live
  | @function f n member reached live call ih =>
    refine .function (mem_functions_eliminateDead.2 ⟨f, member, reached, rfl⟩) ih ?_ call
    rw [← liveNodes_eq_contributors] at live ⊢
    exact (liveNodes_liveNodes f.outputs f.nodes).symm ▸ live

/-! ## Running the pass again -/

/-- A model of which everything is needed stays as it is. -/
theorem withoutDeadNodes_eq_self
    (hnodes : liveNodes m.graph.outputNames m.graph.nodes = m.graph.nodes)
    (hrecords : ∀ r ∈ m.graph.records, r.name ∈ m.graph.nodes.flatMap Node.outputs)
    (hfunctions : ∀ f ∈ m.functions, f.withoutDeadNodes = f ∧ m.Reaches f.name) :
    m.withoutDeadNodes = m := by
  have hmap : m.functions.map Function.withoutDeadNodes = m.functions :=
    (List.map_congr_left fun f hf => (hfunctions f hf).1).trans (List.map_id' _)
  have hkept : (m.functions.filter fun f => m.reached.contains f.name) = m.functions :=
    List.filter_eq_self.2 fun f hf => by simpa [mem_reached_iff] using (hfunctions f hf).2
  have hnamed :
      (m.graph.records.filter fun r => (m.graph.nodes.flatMap Node.outputs).contains r.name) =
      m.graph.records := List.filter_eq_self.2 fun r hr => by simpa using hrecords r hr
  change { m with
    graph := { m.graph with
      nodes := liveNodes m.graph.outputNames m.graph.nodes
      records := m.graph.records.filter fun r =>
        ((liveNodes m.graph.outputNames m.graph.nodes).flatMap Node.outputs).contains r.name }
    functions := (m.functions.map Function.withoutDeadNodes).filter fun f =>
      m.reached.contains f.name } = m
  rw [hnodes, hnamed, hmap, hkept]

theorem prune_prune (m : Model) : m.prune.prune = m.prune := by
  simp [prune, readsInitializer]

/-- Constants that no node reads are not read by the nodes that stay. -/
theorem eliminateDead_prune (m : Model) : m.prune.eliminateDead = m.eliminateDead := by
  have hread : ∀ name, m.withoutDeadNodes.readsInitializer name = true →
      m.readsInitializer name = true := by
    simp only [readsInitializer, List.contains_iff_mem, List.mem_flatMap]
    rintro name ⟨n, hn, hname⟩
    exact ⟨n, (liveNodes_sublist _ _).subset hn, hname⟩
  have hkept : ((m.graph.initializers.filter fun i => m.readsInitializer i.name).filter fun i =>
      m.withoutDeadNodes.readsInitializer i.name) =
        m.graph.initializers.filter fun i => m.withoutDeadNodes.readsInitializer i.name := by
    rw [List.filter_filter]
    exact List.filter_congr fun i _ => by simpa using hread i.name
  exact congrArg (fun initializers => { m.withoutDeadNodes with
    graph := { m.withoutDeadNodes.graph with initializers } }) hkept

theorem eliminateDead_eliminateDead (m : Model) :
    m.eliminateDead.eliminateDead = m.eliminateDead := by
  have hsame : m.eliminateDead.withoutDeadNodes = m.eliminateDead := by
    refine withoutDeadNodes_eq_self (liveNodes_liveNodes m.graph.outputNames m.graph.nodes) ?_ ?_
    · exact fun r hr => List.contains_iff_mem.1 (List.mem_filter.1 hr).2
    · intro g hg
      obtain ⟨f, -, hreached, rfl⟩ := mem_functions_eliminateDead.1 hg
      exact ⟨f.withoutDeadNodes_withoutDeadNodes, hreached.eliminateDead⟩
  rw [eliminateDead, hsame]
  exact prune_prune m.withoutDeadNodes

open Classical in
/-- The nodes of the second model are those of the first that contribute, and its functions are
those that contributing calls lead to, with their contributing nodes. -/
structure KeepsContributing (m m' : Model) : Prop where
  nodes : m'.graph.nodes = contributors m.graph.outputNames m.graph.nodes
  functions : List.Forall₂ (fun f g => f.SameInterface g ∧ g.nodes = contributors f.outputs f.nodes)
    (m.functions.filter fun f => m.Reaches f.name) m'.functions

theorem keepsContributing_eliminateDead (m : Model) : m.KeepsContributing m.eliminateDead where
  nodes := liveNodes_eq_contributors m.graph.outputNames m.graph.nodes
  functions := by
    rw [functions_eliminateDead, List.forall₂_map_right_iff, List.forall₂_same]
    exact fun f _ => ⟨f.sameInterface_withoutDeadNodes, liveNodes_eq_contributors f.outputs f.nodes⟩

/-- Dead-node elimination keeps exactly what contributes to outputs, of every model. Its loop over
functions stops and has then reached the names that contributing calls lead to. A second run changes
nothing, and neither does it matter whether unused constants are pruned before the pass or after
it. -/
theorem keepsContributing_optimize (m : Model) :
    m.KeepsContributing (Optimizer.deadNodeElimination.optimize m) ∧
    (∃ final, FollowsCalls (m.functions.map Function.withoutDeadNodes)
        (callTargets (Optimizer.deadNodeElimination.optimize m).graph.nodes) final ∧
      ∀ name, name ∈ final ↔ m.Reaches name) ∧
    Optimizer.deadNodeElimination.optimize (Optimizer.deadNodeElimination.optimize m) =
      Optimizer.deadNodeElimination.optimize m ∧
    Optimizer.deadNodeElimination.optimize m.prune = Optimizer.deadNodeElimination.optimize m ∧
    (Optimizer.deadNodeElimination.optimize m).prune =
      Optimizer.deadNodeElimination.optimize m := by
  refine ⟨m.keepsContributing_eliminateDead,
    ⟨m.reached, followsCalls_reachable _ _, fun _ => mem_reached_iff⟩, ?_, ?_, ?_⟩
  · exact m.eliminateDead_eliminateDead
  · exact m.eliminateDead_prune
  · exact prune_prune m.withoutDeadNodes

end Model

end TensorGraph
