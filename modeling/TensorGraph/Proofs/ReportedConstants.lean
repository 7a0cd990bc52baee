import Mathlib.Algebra.GroupWithZero.Nat
import Mathlib.Algebra.Order.BigOperators.Group.List
import TensorGraph.Model.ConstantReport
import TensorGraph.Proofs.Elimination
import TensorGraph.Proofs.SharedCalls
import TensorGraph.Proofs.SingleAssignment

/-!
# What the report on constants tells

The report is made in one pass over the nodes of the graph. Each node is noted for the constants
that it reads (`usesOf_foldl_noteNode`), so on a valid model, where every constant is read, the
usage has an entry for every constant and lists its readers (`ConstantReport.tellsUsage_ofModel`).

How a call receives an input is told by looking for the name among the inputs of the graph and then
among the constants. On a converted model this is where the name comes from, since all names are
different (`Graph.sourceOf_eq_iff`). A call passes the constants that its function captured behind
the data (`Model.PassesConstants`); it reads them, so they stay when unread constants are dropped,
and they are told as constants (`ConstantReport.tellsCalls_ofModel`).
-/

namespace TensorGraph

/-! ## Operations that read a constant -/

/-- The operations of the nodes that read a name, in the order of the nodes and once for each input
that is the name. -/
def Graph.readers (g : Graph) (x : String) : List String :=
  g.nodes.flatMap fun n => List.replicate (n.inputs.count x) n.opType

theorem Graph.readers_ne_nil {g : Graph} {x : String} (h : x ∈ g.nodes.flatMap Node.inputs) :
    g.readers x ≠ [] := by
  obtain ⟨n, hn, hx⟩ := List.mem_flatMap.1 h
  have hmem : n.opType ∈ g.readers x :=
    List.mem_flatMap.2 ⟨n, hn, List.mem_replicate.2 ⟨(List.count_pos_iff.2 hx).ne', rfl⟩⟩
  exact List.ne_nil_of_mem hmem

namespace ConstantReport

/-- The operations that are noted for a name. -/
def usesOf (usage : List (String × List String)) (x : String) : List String :=
  (usage.lookup x).getD []

/-- Usage that is kept in the order of the names, with something noted for each. -/
structure Noted (usage : List (String × List String)) : Prop where
  sorted : Keyed.Sorted usage
  nonempty : ∀ p ∈ usage, p.2 ≠ []

section

variable {usage : List (String × List String)} {x : String} {g : Graph} {r : ConstantReport}

theorem noted_nil : Noted [] :=
  ⟨List.Pairwise.nil, fun _ hp => absurd hp List.not_mem_nil⟩

theorem Noted.mem_iff (h : Noted usage) {ops : List String} :
    (x, ops) ∈ usage ↔ ops ≠ [] ∧ usesOf usage x = ops := by
  rw [h.sorted.mem_iff, usesOf]
  cases hx : usage.lookup x with
  | none => simp
  | some found =>
    have hne : found ≠ [] := h.nonempty (x, found) (h.sorted.mem_iff.2 hx)
    simp only [Option.some.injEq, Option.getD_some]
    constructor
    · rintro rfl
      exact ⟨hne, rfl⟩
    · exact fun hops => hops.2

theorem Noted.noteUse (h : Noted usage) (opType : String) : Noted (noteUse opType usage x) where
  sorted := h.sorted.set
  nonempty p hp := by
    rcases Keyed.mem_of_mem_set hp with rfl | hp
    · simp
    · exact h.nonempty p hp

theorem usesOf_noteUse (opType : String) (usage : List (String × List String)) (x y : String) :
    usesOf (noteUse opType usage y) x = usesOf usage x ++ if y = x then [opType] else [] := by
  by_cases hxy : y = x
  · subst hxy
    simp [usesOf, noteUse, Keyed.lookup_set_self]
  · simp [usesOf, noteUse, Keyed.lookup_set_of_ne (Ne.symm hxy), hxy]

theorem Noted.foldl_noteUse (h : Noted usage) (opType : String) (names : List String) :
    Noted (names.foldl (ConstantReport.noteUse opType) usage) := by
  induction names generalizing usage with
  | nil => exact h
  | cons y rest ih => exact ih (h.noteUse opType)

/-- An operation is noted once for each time that a name is read. -/
theorem usesOf_foldl_noteUse (opType : String) (names : List String)
    (usage : List (String × List String)) (x : String) :
    usesOf (names.foldl (noteUse opType) usage) x = usesOf usage x ++ List.replicate
      (names.count x) opType := by
  induction names generalizing usage with
  | nil => simp
  | cons y rest ih =>
    rw [List.foldl_cons, ih, usesOf_noteUse, List.append_assoc, List.count_cons]
    by_cases hxy : y = x
    · simp [hxy, List.replicate_succ]
    · simp [hxy]

theorem Noted.foldl_noteNode (h : Noted r.usage) (nodes : List Node) :
    Noted (nodes.foldl (noteNode g) r).usage := by
  induction nodes generalizing r with
  | nil => exact h
  | cons n rest ih => exact ih (h.foldl_noteUse n.opType _)

/-- All nodes that read a constant are noted for it, and nothing is noted for another name. -/
theorem usesOf_foldl_noteNode (nodes : List Node) (r : ConstantReport) (x : String) :
    usesOf (nodes.foldl (noteNode g) r).usage x = usesOf r.usage x ++
      if x ∈ g.initializerNames then nodes.flatMap fun n =>
        List.replicate (n.inputs.count x) n.opType else [] := by
  induction nodes generalizing r with
  | nil => simp
  | cons n rest ih =>
    have hnode : usesOf (noteNode g r n).usage x = usesOf r.usage x ++
        if x ∈ g.initializerNames then List.replicate (n.inputs.count x) n.opType else [] := by
      rw [noteNode, usesOf_foldl_noteUse]
      split_ifs with hx
      · rw [List.count_filter (by simpa using hx)]
      · rw [List.count_eq_zero.2 fun hmem => hx (by simpa using (List.mem_filter.1 hmem).2),
          List.replicate_zero]
    rw [List.foldl_cons, ih, hnode, List.append_assoc]
    split_ifs <;> simp

theorem calls_foldl_noteNode (nodes : List Node) (r : ConstantReport) :
    (nodes.foldl (noteNode g) r).calls = r.calls ++ (nodes.filter Node.isCall).map
      (CallReport.ofNode g) := by
  induction nodes generalizing r with
  | nil => simp
  | cons n rest ih =>
    rw [List.foldl_cons, ih, noteNode]
    cases hcall : n.isCall <;> simp [hcall]

end

/-- The usage is that of the constants of a graph: one entry for each, in the order of the names,
with all its readers. -/
structure TellsUsage (r : ConstantReport) (g : Graph) : Prop where
  sorted : (r.usage.map Prod.fst).Pairwise (· < ·)
  keys_iff : ∀ x, x ∈ r.usage.map Prod.fst ↔ x ∈ g.initializerNames
  readers_eq : ∀ x ops, (x, ops) ∈ r.usage → ops = g.readers x

/-- The usage of a valid model is that of its constants. -/
theorem tellsUsage_ofModel {m : Model} (h : m.Valid) : (ofModel m).TellsUsage m.graph := by
  have hnoted : Noted (ofModel m).usage := by
    rw [ofModel]
    exact Noted.foldl_noteNode noted_nil _
  have huses : ∀ x, usesOf (ofModel m).usage x = if x ∈ m.graph.initializerNames
      then m.graph.readers x else [] := fun x =>
    usesOf_foldl_noteNode m.graph.nodes _ x
  refine ⟨List.pairwise_map.2 hnoted.sorted, fun x => ?_, fun x ops hx => ?_⟩
  · constructor
    · intro hx
      obtain ⟨⟨x, ops⟩, hmem, rfl⟩ := List.mem_map.1 hx
      obtain ⟨hne, hops⟩ := hnoted.mem_iff.1 hmem
      rw [huses] at hops
      by_contra hnot
      exact hne (hops ▸ if_neg hnot)
    · intro hx
      refine List.mem_map.2 ⟨(x, m.graph.readers x),
        hnoted.mem_iff.2 ⟨Graph.readers_ne_nil (h.read x hx), ?_⟩, rfl⟩
      rw [huses, if_pos hx]
  · obtain ⟨hne, hops⟩ := hnoted.mem_iff.1 hx
    rw [huses] at hops
    split_ifs at hops with hconstant
    · exact hops.symm
    · exact absurd hops.symm hne

end ConstantReport

/-! ## Captured constants of calls -/

/-- A call of a function: the data come first, and then a constant for each of its parameters. -/
def Node.PassesConstants (n : Node) (f : Function) (constants : List String) : Prop :=
  ∃ data captured, n.inputs = data ++ captured ∧ captured.length = f.paramCount ∧ ∀ x ∈ captured,
    x ∈ constants

/-- Every call of the graph passes a constant for each parameter of its function. -/
def Model.PassesConstants (m : Model) : Prop :=
  ∀ n ∈ m.graph.nodes, n.isCall = true →
    ∃ f, m.function? n.opType = some f ∧ n.PassesConstants f m.graph.initializerNames

section

variable {program : Program} {settings : Params} {symbols : SymbolTable} {σ : Shared} {index : Nat}
  {types : List AbstractValue} {callee : Callee} {m : Model}

/-- A function has a parameter for each constant that is passed to it. -/
theorem Implements.paramCount_eq (h : Implements program settings symbols σ index types callee) :
    callee.function.paramCount = callee.captured.length := by
  cases h with
  | @intro _ _ _ _ _ t l _ _ _ _ _ _ _ f known trace inner translates
    function same member captured infos =>
    obtain ⟨-, records, -, hf⟩ := Level.toFunction_eq_ok.1 function
    rw [same, hf]
    rfl

theorem Model.Translates.passesConstants {t : Trace} (h : m.Translates program settings symbols t) :
    m.PassesConstants := by
  obtain ⟨σ, l, names, info, body, tail, decls, hσ, htranslates, hm⟩ := h
  intro n hn hcall
  rw [hm.nodes] at hn
  rcases htranslates.node_cases hn with
    ⟨op, nodeName, inputs, outputs, rfl⟩ |
    ⟨c, index, types, callee, nodeName, data, outs, hcallee, hdata, rfl⟩
  · simp [Node.plain, Node.isCall, functionDomain] at hcall
  · refine ⟨callee.function, ?_, data, callee.captured, rfl, hcallee.paramCount_eq.symm, ?_⟩
    · rw [Model.function?, hm.functions]
      exact findFunction?_of_mem hσ.functions_nodup hcallee.member
    · rw [hm.initializerNames_eq]
      exact Implements.captureFrom _ _ _ hcallee

namespace Model.PassesConstants

/-- A constant that a call passes is read, so it stays. -/
theorem prune (h : m.PassesConstants) : m.prune.PassesConstants := by
  intro n hn hcall
  obtain ⟨f, hf, data, captured, hinputs, hcount, hconstants⟩ := h n hn hcall
  refine ⟨f, hf, data, captured, hinputs, hcount,
    fun x hx => mem_initializerNames_prune.2 ⟨hconstants x hx, ?_⟩⟩
  exact List.mem_flatMap.2 ⟨n, hn, hinputs ▸ List.mem_append_right data hx⟩

/-- A function that a live call reaches keeps its parameters. -/
theorem withoutDeadNodes (h : m.PassesConstants) : m.withoutDeadNodes.PassesConstants := by
  intro n hn hcall
  obtain ⟨f, hf, hpasses⟩ :=
    h n ((liveNodes_sublist m.graph.outputNames m.graph.nodes).subset hn) hcall
  refine ⟨f.withoutDeadNodes, ?_, hpasses⟩
  rw [Model.function?, functions_withoutDeadNodes,
    findFunction?_keptFunctions _ (mem_reached hn hcall)]
  exact congrArg (Option.map Function.withoutDeadNodes) hf

end Model.PassesConstants

end

/-! ## Sources of inputs -/

/-- The name comes from a source of the graph, as it is seen after the nodes `earlier`. -/
def Graph.Feeds (g : Graph) (earlier : List Node) (x : String) : InputSource → Prop
  | .graphInput => x ∈ g.inputNames
  | .initializer => x ∈ g.initializerNames
  | .intermediate => x ∈ earlier.flatMap Node.outputs

/-- Where all names are different, a name that can be read has the one source that it is given. -/
theorem Graph.sourceOf_eq_iff {g : Graph} {earlier : List Node} {x : String}
    (hnodup : (g.inputNames ++ g.initializerNames ++ earlier.flatMap Node.outputs).Nodup)
    (hx : x ∈ g.inputNames ++ g.initializerNames ++ earlier.flatMap Node.outputs)
    (source : InputSource) :
    g.sourceOf x = source ↔ g.Feeds earlier x source := by
  obtain ⟨hgiven, -, houtputs⟩ := List.nodup_append.1 hnodup
  obtain ⟨-, -, hconstants⟩ := List.nodup_append.1 hgiven
  rcases List.mem_append.1 hx with hx | hx
  · have hmade : x ∉ earlier.flatMap Node.outputs := fun hmade => houtputs x hx x hmade rfl
    rcases List.mem_append.1 hx with hx | hx
    · have hconstant : x ∉ g.initializerNames := fun hconstant => hconstants x hx x hconstant rfl
      cases source <;> simp [sourceOf, Feeds, hx, hconstant, hmade]
    · have hinput : x ∉ g.inputNames := fun hinput => hconstants x hinput x hx rfl
      cases source <;> simp [sourceOf, Feeds, hx, hinput, hmade]
  · have hgiven : x ∉ g.inputNames ++ g.initializerNames := fun hgiven => houtputs x hgiven x hx rfl
    rw [List.mem_append, not_or] at hgiven
    cases source <;> simp [sourceOf, Feeds, hx, hgiven.1, hgiven.2]

/-- The report on a call that stands after the nodes `earlier`. -/
structure CallReport.Tells (c : CallReport) (m : Model) (earlier : List Node) (n : Node) :
    Prop where
  node : c.node = n.name
  function : c.function = n.opType
  inputs : c.inputs.map CallInput.name = n.inputs
  /-- An input has the one source that is given for it. -/
  source_iff : ∀ i ∈ c.inputs, ∀ source, i.source = source ↔ m.graph.Feeds earlier i.name source
  /-- The inputs for the parameters of the function are constants. -/
  params : ∃ f, m.function? n.opType = some f ∧ ∃ data captured, c.inputs = data ++ captured ∧
    captured.length = f.paramCount ∧ ∀ i ∈ captured, i.source = .initializer

/-- The number of parameters of the functions that the graph calls, counted for every call. -/
def Model.calledParams (m : Model) : Nat :=
  (m.callNodes.map fun n => ((m.function? n.opType).map Function.paramCount).getD 0).sum

namespace ConstantReport

/-- The calls are those of the graph in their order, each with its inputs and their sources. -/
structure TellsCalls (r : ConstantReport) (m : Model) : Prop where
  calls : List.Forall₂ (fun n c => ∀ earlier later, m.graph.nodes = earlier ++ n :: later →
    c.Tells m earlier n) m.callNodes r.calls
  fed : m.calledParams ≤ r.initializerFedInputs

section

variable {m : Model}

theorem calls_ofModel (m : Model) :
    (ofModel m).calls = m.callNodes.map (CallReport.ofNode m.graph) := by
  rw [ofModel, calls_foldl_noteNode]
  rfl

theorem tells_ofNode (hproper : m.Proper) (hsingle : m.SingleAssignment)
    (hpasses : m.PassesConstants) {n : Node} (hcall : n.isCall = true) {earlier later : List Node}
    (hnodes : m.graph.nodes = earlier ++ n :: later) :
    (CallReport.ofNode m.graph n).Tells m earlier n := by
  have hnodup :
      (m.graph.inputNames ++ m.graph.initializerNames ++ earlier.flatMap Node.outputs).Nodup := by
    have hearlier : earlier.Sublist m.graph.nodes :=
      hnodes ▸ List.sublist_append_left earlier (n :: later)
    exact (List.nodup_append.1 (List.nodup_append.1 hsingle.names).1).1.sublist
      ((List.Sublist.refl _).append (hearlier.flatMap Node.outputs))
  have hreads := hproper.reads
  rw [hnodes, ReadsFrom.append_iff] at hreads
  have hsource : ∀ x ∈ n.inputs, ∀ source, m.graph.sourceOf x = source ↔
      m.graph.Feeds earlier x source :=
    fun x hx => Graph.sourceOf_eq_iff hnodup (hreads.2.1 x hx)
  obtain ⟨f, hf, data, captured, hinputs, hcount, hconstants⟩ :=
    hpasses n (by rw [hnodes]; simp) hcall
  constructor
  case node => rfl
  case function => rfl
  case inputs =>
    rw [CallReport.ofNode, List.map_map]
    exact List.map_id _
  case source_iff =>
    intro i hi
    obtain ⟨x, hx, rfl⟩ := List.mem_map.1 hi
    exact hsource x hx
  case params =>
    refine ⟨f, hf, data.map _, captured.map _, by rw [CallReport.ofNode, hinputs, List.map_append],
      by simpa using hcount, ?_⟩
    intro i hi
    obtain ⟨x, hx, rfl⟩ := List.mem_map.1 hi
    exact (hsource x (hinputs ▸ List.mem_append_right data hx) _).2 (hconstants x hx)

/-- A call is fed by a constant for each parameter of its function at least. -/
theorem paramCount_le_countP {c : CallReport} {earlier : List Node} {n : Node}
    (h : c.Tells m earlier n) :
    ((m.function? n.opType).map Function.paramCount).getD 0 ≤ c.inputs.countP fun i =>
      i.source == .initializer := by
  obtain ⟨f, hf, data, captured, hinputs, hcount, hsource⟩ := h.params
  have hall : captured.countP (fun i => i.source == .initializer) = captured.length :=
    List.countP_eq_length.2 fun i hi => by simp [hsource i hi]
  rw [hf, hinputs, List.countP_append, hall, hcount]
  exact Nat.le_add_left _ _

theorem tellsCalls_ofModel (hproper : m.Proper) (hsingle : m.SingleAssignment)
    (hpasses : m.PassesConstants) :
    (ofModel m).TellsCalls m := by
  have htells : ∀ n ∈ m.callNodes, ∀ earlier later, m.graph.nodes = earlier ++ n :: later →
      (CallReport.ofNode m.graph n).Tells m earlier n :=
    fun n hn _ _ => tells_ofNode hproper hsingle hpasses (List.mem_filter.1 hn).2
  refine ⟨?_, ?_⟩
  · rw [calls_ofModel]
    exact List.forall₂_map_right_iff.2 (List.forall₂_same.2 htells)
  · rw [Model.calledParams, initializerFedInputs, calls_ofModel, List.countP_flatMap, List.map_map]
    refine List.sum_le_sum fun n hn => ?_
    obtain ⟨earlier, later, hnodes⟩ := List.append_of_mem (List.mem_filter.1 hn).1
    exact paramCount_le_countP (htells n hn earlier later hnodes)

end

end ConstantReport

/-- The report on a valid model tells the usage of its constants, and the report on a converted
model tells how its calls are fed. -/
theorem constantReport_tells :
    (∀ m : Model, m.problems = [] → (ConstantReport.ofModel m).TellsUsage m.graph) ∧
      ∀ (optimizer : Optimizer) (program : Program) (inputs : List InputSpec)
        (options : ConversionOptions) (m : Model),
        (convert .builtin optimizer program inputs options).result = .ok m →
        (ConstantReport.ofModel m).TellsCalls m := by
  refine ⟨fun m hm => ConstantReport.tellsUsage_ofModel (Model.problems_eq_nil_iff.1 hm), ?_⟩
  intro optimizer program inputs options m h
  obtain ⟨entry, -, lowered, _, hlowered, rfl⟩ := convert_eq_ok.1 h
  obtain ⟨settings, t, counts, -, -, htranslates⟩ := translates_lowerProgram hlowered
  have hproper : (lowered.finished optimizer options).Proper :=
    Model.finished_of_steps (fun _ => .prune) (fun _ => .withoutDeadNodes) htranslates.proper
      optimizer options
  have hpasses : (lowered.finished optimizer options).PassesConstants :=
    Model.finished_of_steps (fun _ => .prune) (fun _ => .withoutDeadNodes)
      htranslates.passesConstants optimizer options
  exact ConstantReport.tellsCalls_ofModel hproper
    ((singleAssignment_lowerProgram hlowered).finished optimizer options) hpasses

/-- A constant that two nodes read, one of them twice, and another one. -/
def Example.reused : Model where
  producer := "example"
  opset := 18
  graph := {
    name := "reused"
    inputs := [scalar "x"]
    outputs := [scalar "z"]
    nodes := [.plain "Mul" "scaled" ["x", "d"] ["y"], .plain "Add" "doubled" ["d", "d"] ["e"],
      .plain "Sum" "total" ["e", "y", "c"] ["z"]]
    initializers := [⟨"d", ⟨.f32, [], [0, 0, 0, 64]⟩⟩, ⟨"c", ⟨.f32, [], [0, 0, 128, 63]⟩⟩]
    records := [scalar "y", scalar "e"] }
  functions := []

/-- The example's constants are reported with their readers, and the three calls of an affine
callable with their weights. -/
theorem constantReport_tells_reused :
    Example.reused.problems = [] ∧
      (ConstantReport.ofModel Example.reused).TellsUsage Example.reused.graph ∧
      (ConstantReport.ofModel Example.reused).usage =
        [("c", ["Sum"]), ("d", ["Mul", "Add", "Add"])] ∧
      ∃ m, (convert .builtin .noop [Example.affine, Example.layers] [⟨[.fixed 1], .f32⟩]
          .default).result = .ok m ∧
        (ConstantReport.ofModel m).TellsCalls m := by
  have hvalid : Example.reused.problems = [] := by decide
  obtain ⟨m, h, -⟩ := Example.exists_convert_layers
  exact ⟨hvalid, constantReport_tells.1 _ hvalid, by decide, m, h,
    constantReport_tells.2 _ _ _ _ m h⟩

end TensorGraph
