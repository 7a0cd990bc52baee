import Mathlib.Data.List.Forall2
import TensorGraph.Proofs.ModelEvaluation

/-!
# What dead-node elimination keeps

The pass leaves the interface of a model and of the functions that stay
(`Model.keepsInterface_eliminateDead`). It also keeps the results of every valid model that does not
output a constant directly (`Model.evaluates_optimize`): names may be defined again, nodes may have
several outputs, and functions may call each other.

Where an output of the graph is a constant, the pass can drop that constant, because it asks only
whether a node reads it. The model is then no longer valid, and the lost outputs are its only
problems (`Model.problems_eliminateDead`). `Model.problems_optimize_eq_nil_iff` says when that does
not happen.
-/

namespace TensorGraph

/-! ## Interfaces -/

/-- Two functions that callers cannot tell apart. -/
structure Function.SameInterface (f g : Function) : Prop where
  name : g.name = f.name
  domain : g.domain = f.domain
  inputs : g.inputs = f.inputs
  paramCount : g.paramCount = f.paramCount
  outputs : g.outputs = f.outputs

theorem Function.sameInterface_withoutDeadNodes (f : Function) :
    f.SameInterface f.withoutDeadNodes :=
  ⟨rfl, rfl, rfl, rfl, rfl⟩

namespace Model

/-- The second model has the interface of the first, and some of its functions in their order. -/
structure KeepsInterface (m m' : Model) : Prop where
  producer : m'.producer = m.producer
  opset : m'.opset = m.opset
  name : m'.graph.name = m.graph.name
  inputs : m'.graph.inputs = m.graph.inputs
  outputs : m'.graph.outputs = m.graph.outputs
  functions : ∃ kept, kept.Sublist m.functions ∧
    List.Forall₂ Function.SameInterface kept m'.functions

theorem keepsInterface_eliminateDead (m : Model) : m.KeepsInterface m.eliminateDead where
  producer := rfl
  opset := rfl
  name := rfl
  inputs := rfl
  outputs := rfl
  functions := by
    refine ⟨m.functions.filter fun f => m.reached.contains f.name, List.filter_sublist, ?_⟩
    have hfunctions : m.eliminateDead.functions =
        (m.functions.filter fun f => m.reached.contains f.name).map Function.withoutDeadNodes :=
      List.filter_map
    rw [hfunctions, List.forall₂_map_right_iff, List.forall₂_same]
    exact fun f _ => f.sameInterface_withoutDeadNodes

/-! ## Results -/

variable {m : Model}

/-- Where a model outputs no constant directly, its outputs do not need the constants that no node
reads. -/
theorem Valid.proper (h : m.Valid)
    (hdirect : ∀ x ∈ m.graph.outputNames, x ∉ m.graph.initializerNames) : m.Proper where
  toKeepsRules := h.toKeepsRules
  produced x hx := by
    have hproduced := h.produced x hx
    simp only [List.mem_append] at hproduced ⊢
    rcases hproduced with (hinput | hconstant) | hnode
    · exact Or.inl hinput
    · exact absurd hconstant (hdirect x hx)
    · exact Or.inr hnode
  functions := h.functions

end Model

namespace Example

def scalar (name : String) : ValueRecord :=
  ⟨name, [], .f32, .declared⟩

/-- The square of the argument. A sum is computed that nothing needs. -/
def square : Function :=
  ⟨"square", functionDomain, ["in_0"], 0, ["out_0"],
    [.plain "Add" "sum" ["in_0", "in_0"] ["tmp_0"],
      .plain "Mul" "product" ["in_0", "in_0"] ["out_0"]],
      [scalar "in_0", scalar "out_0", scalar "tmp_0"]⟩

def callTo (name function : String) (inputs outputs : List String) : Node :=
  ⟨name, function, functionDomain, inputs, outputs, [], none⟩

/-- The fourth power of the argument. -/
def fourth : Function :=
  ⟨"fourth", functionDomain, ["in_0"], 0, ["out_0"],
    [callTo "first" "square" ["in_0"] ["tmp_0"], callTo "second" "square" ["tmp_0"] ["out_0"]],
    [scalar "in_0", scalar "out_0", scalar "tmp_0"]⟩

/-- A node with two outputs, one of them dead, a dead node that is alone in reading a constant, a
call of a function that calls another one, and a node that defines a name again. -/
def branching : Model where
  producer := "example"
  opset := 18
  graph := {
    name := "branching"
    inputs := [scalar "x"]
    outputs := [scalar "y"]
    nodes :=
      [.plain "Neighbours" "neighbours" ["x"] ["below", "above"],
        .plain "Mul" "scaled" ["x", "c"] ["z"], callTo "power" "fourth" ["above"] ["y"],
        .plain "Add" "total" ["y", "x"] ["y"]]
    initializers := [⟨"c", ⟨.f32, [], [0, 0, 0, 64]⟩⟩]
    records := [scalar "below", scalar "above", scalar "z"] }
  functions := [square, fourth]

/-- Integers, with one constant. -/
def integers : Interpretation Int where
  constant _ := 2
  apply opType _ _ args :=
    match opType, args with
    | "Neighbours", [a] => some [a - 1, a + 1]
    | "Add", [a, b] => some [a + b]
    | "Mul", [a, b] => some [a * b]
    | _, _ => none

theorem runs_square (functions : List Function) (a : Int) : ∃ env,
    Runs integers functions (Env.empty.define square.inputs [a]) square.nodes env ∧
    env "out_0" = some (a * a) :=
  ⟨_, @Runs.plain _ _ _ _ _ _ _ [a, a] [a + a] rfl rfl rfl rfl
    (@Runs.plain _ _ _ _ _ _ _ [a, a] [a * a] rfl rfl rfl rfl .nil), rfl⟩

theorem evaluates_branching : branching.Evaluates integers [2] [83] := by
  obtain ⟨inner, hfirst, hfirstResult⟩ := runs_square branching.functions 3
  obtain ⟨inner', hsecond, hsecondResult⟩ := runs_square branching.functions 9
  refine ⟨rfl, _, @Runs.plain _ _ _ _ _ _ _ [2] [1, 3] rfl rfl rfl rfl
    (@Runs.plain _ _ _ _ _ _ _ [2, 2] [4] rfl rfl rfl rfl
      (@Runs.call _ _ _ _ _ _ _ _ fourth [3] [81] rfl rfl rfl rfl
        (@Runs.call _ _ _ _ _ _ _ _ square [3] [9] rfl rfl rfl rfl hfirst ?_ rfl
          (@Runs.call _ _ _ _ _ _ _ _ square [9] [81] rfl rfl rfl rfl hsecond ?_ rfl .nil)) rfl rfl
        (@Runs.plain _ _ _ _ _ _ _ [81, 2] [83] rfl rfl rfl rfl .nil))), rfl⟩
  · exact congrArg (fun v => [v]) hfirstResult
  · exact congrArg (fun v => [v]) hsecondResult

end Example

namespace Model

variable {m : Model}

/-- Dead-node elimination keeps the results and the interface of every valid model that outputs no
constant directly. -/
theorem evaluates_optimize (hvalid : m.problems = [])
    (hdirect : ∀ x ∈ m.graph.outputNames, x ∉ m.graph.initializerNames) :
    (∀ (V : Type) (I : Interpretation V) (values results : List V), m.Evaluates I values results →
      ∀ results', (Optimizer.deadNodeElimination.optimize m).Evaluates I values results' ↔
        results' = results) ∧
    m.KeepsInterface (Optimizer.deadNodeElimination.optimize m) := by
  have hproper : m.Proper := (problems_eq_nil_iff.1 hvalid).proper hdirect
  refine ⟨fun V I values results h results' => ?_, m.keepsInterface_eliminateDead⟩
  have hkept : m.eliminateDead.Evaluates I values results :=
    h.withoutDeadNodes.prune hproper.withoutDeadNodes
  constructor
  · exact fun h' => h'.unique hkept
  · rintro rfl
    exact hkept

/-- On the example the pass removes a node, a constant and a record, and the result stays. -/
theorem evaluates_optimize_branching : Example.branching.problems = [] ∧
    (Optimizer.deadNodeElimination.optimize Example.branching).graph.nodes.length = 3 ∧
    (Optimizer.deadNodeElimination.optimize Example.branching).Evaluates Example.integers [2]
      [83] := by
  have hvalid : Example.branching.problems = [] := by decide
  have hkept :=
    (evaluates_optimize hvalid (by decide)).1 Int Example.integers [2]
      [83] Example.evaluates_branching
  exact ⟨hvalid, by decide, (hkept [83]).2 rfl⟩

/-! ## Validity -/

/-- The outputs that nothing in the optimized model provides: they are no inputs, and no node that
stays produces or reads them. -/
def lostOutputs (m : Model) : List String :=
  m.graph.outputNames.filter fun x =>
    !(m.graph.inputNames ++ m.eliminateDead.graph.nodes.flatMap Node.outputs ++
      m.eliminateDead.graph.nodes.flatMap Node.inputs).contains x

theorem Valid.keepsRules_eliminateDead (h : m.Valid) : KeepsRules m.eliminateDead.functions
    (m.eliminateDead.graph.inputNames ++ m.eliminateDead.graph.initializerNames)
      m.eliminateDead.graph.nodes :=
  keepsRules_prune (h.toKeepsRules.liveNodes fun _ hn => mem_reached hn)

theorem mem_initializerNames_eliminateDead {x : String} :
    x ∈ m.eliminateDead.graph.initializerNames ↔
      x ∈ m.graph.initializerNames ∧ x ∈ m.eliminateDead.graph.nodes.flatMap Node.inputs :=
  mem_initializerNames_prune

/-- An output of a valid model is still there after the pass exactly if it is an input or a node
that stays produces it or reads it. -/
theorem Valid.mem_defined_eliminateDead (h : m.Valid) {x : String} (hx : x ∈ m.graph.outputNames) :
    x ∈ m.eliminateDead.graph.inputNames ++ m.eliminateDead.graph.initializerNames ++
        m.eliminateDead.graph.nodes.flatMap Node.outputs ↔
      x ∈ m.graph.inputNames ++ m.eliminateDead.graph.nodes.flatMap Node.outputs ++
        m.eliminateDead.graph.nodes.flatMap Node.inputs := by
  simp only [List.mem_append, mem_initializerNames_eliminateDead]
  constructor
  · rintro ((hinput | ⟨-, hread⟩) | hnode)
    · exact Or.inl (Or.inl hinput)
    · exact Or.inr hread
    · exact Or.inl (Or.inr hnode)
  · rintro ((hinput | hnode) | hread)
    · exact Or.inl (Or.inl hinput)
    · exact Or.inr hnode
    · -- the output has a source in the whole model, and a node that produces an output stays
      have hsource := h.produced x hx
      simp only [List.mem_append] at hsource
      rcases hsource with (hinput | hconstant) | hnode
      · exact Or.inl (Or.inl hinput)
      · exact Or.inl (Or.inr ⟨hconstant, hread⟩)
      · exact Or.inr (mem_outputs_liveNodes hx hnode)

/-- What the pass can break is that an output is produced, and nothing else. -/
theorem Valid.problems_eliminateDead (h : m.Valid) :
    m.eliminateDead.problems = m.lostOutputs.map (.notProduced .graph) := by
  have hbody : m.eliminateDead.bodyProblems .graph []
      (m.eliminateDead.graph.inputNames ++ m.eliminateDead.graph.initializerNames)
        m.eliminateDead.graph.nodes = [] :=
    bodyProblems_eq_nil_iff.2 ⟨by simp, h.keepsRules_eliminateDead⟩
  have hread : (m.eliminateDead.graph.initializerNames.filter fun x =>
      !(m.eliminateDead.graph.nodes.flatMap Node.inputs).contains x) = [] :=
    filter_not_contains_eq_nil_iff.2 fun x hx => (mem_initializerNames_eliminateDead.1 hx).2
  have hfunctions : m.eliminateDead.functions.flatMap m.eliminateDead.functionProblems = [] :=
    List.flatMap_eq_nil_iff.2 fun f hf =>
      functionProblems_eq_nil_iff.2 (valid_withoutDeadNodes h.functions f hf)
  have houtputs :
      outputProblems .graph
        (m.eliminateDead.graph.inputNames ++ m.eliminateDead.graph.initializerNames)
          m.eliminateDead.graph.nodes m.eliminateDead.graph.outputNames =
            m.lostOutputs.map (.notProduced .graph) := by
    refine congrArg _ (List.filter_congr fun x hx => ?_)
    rw [Bool.eq_iff_iff]
    simp only [Bool.not_eq_true', ← Bool.not_eq_true, List.contains_iff_mem,
      h.mem_defined_eliminateDead hx]
  rw [problems, graphProblems, hbody, houtputs, hread, hfunctions, List.nil_append, List.map_nil,
    List.append_nil, List.append_nil]

/-- After dead-node elimination a valid model is valid exactly if each constant that is an output is
also an input or is produced or read by a node that stays. -/
theorem problems_optimize_eq_nil_iff (hvalid : m.problems = []) :
    (Optimizer.deadNodeElimination.optimize m).problems = [] ↔
      ∀ x ∈ m.graph.outputNames, x ∈ m.graph.initializerNames →
        x ∈ m.graph.inputNames ∨
        ∃ n ∈ (Optimizer.deadNodeElimination.optimize m).graph.nodes, x ∈ n.outputs ∨
          x ∈ n.inputs := by
  have h : m.Valid := problems_eq_nil_iff.1 hvalid
  change m.eliminateDead.problems = [] ↔ ∀ x ∈ m.graph.outputNames, x ∈ m.graph.initializerNames →
    x ∈ m.graph.inputNames ∨ ∃ n ∈ m.eliminateDead.graph.nodes, x ∈ n.outputs ∨ x ∈ n.inputs
  rw [h.problems_eliminateDead, List.map_eq_nil_iff, lostOutputs, filter_not_contains_eq_nil_iff]
  refine forall₂_congr fun x hx => ?_
  simp only [List.mem_append, List.mem_flatMap, and_or_left, exists_or, ← or_assoc]
  refine ⟨fun hkept _ => hkept, fun hkept => ?_⟩
  -- an output that is no constant is an input or is produced by a live node
  by_cases hconstant : x ∈ m.graph.initializerNames
  · exact hkept hconstant
  · have hsource := h.produced x hx
    simp only [List.mem_append] at hsource
    rcases hsource with (hinput | hconstant') | hnode
    · exact Or.inl (Or.inl hinput)
    · exact absurd hconstant' hconstant
    · exact Or.inl (Or.inr (List.mem_flatMap.1 (mem_outputs_liveNodes hx hnode)))

end Model

namespace Example

/-- A constant that is an output of the graph and that only a dead node reads. -/
def constantOutput : Model where
  producer := "example"
  opset := 18
  graph := {
    name := "constant"
    inputs := [scalar "x"]
    outputs := [scalar "c"]
    nodes := [.plain "Add" "sum" ["x", "c"] ["y"]]
    initializers := [⟨"c", ⟨.f32, [], [0, 0, 0, 64]⟩⟩]
    records := [scalar "y"] }
  functions := []

end Example

namespace Model

/-- The pass drops the constant that the example outputs. -/
theorem problems_optimize_constantOutput : Example.constantOutput.problems = [] ∧
    (Optimizer.deadNodeElimination.optimize Example.constantOutput).problems ≠ [] := by
  have hvalid : Example.constantOutput.problems = [] := by decide
  refine ⟨hvalid, fun hoptimized => ?_⟩
  have hkept := (problems_optimize_eq_nil_iff hvalid).1 hoptimized "c" (by decide) (by decide)
  revert hkept
  decide

end Model

end TensorGraph
