import TensorGraph.Proofs.TypingRules
import TensorGraph.Proofs.Validity

/-!
# Types of values in models

The type of a name is what its record says, or the shape and element type of the constant that goes
by it (`Graph.type?`, `Function.type?`). A model is well typed if every operand and output of every
node has a type, and these types fit together (`Model.WellTyped`) : an operation broadcasts its
operands, and a call passes and gets back what the records of the called function say.

Pruning and dead-node elimination keep a model well typed where constants have no records
(`Model.WellTyped.prune`, `Model.WellTyped.withoutDeadNodes`).
-/

namespace TensorGraph

/-! ## Broadcast shapes -/

/-- Two dimensions and the one that they broadcast to : a dimension goes with itself and with a
fixed one. -/
inductive ShapeDim.Joins : ShapeDim → ShapeDim → ShapeDim → Prop where
  | same (d : ShapeDim) : Joins d d d
  | oneLeft (d : ShapeDim) : Joins (.fixed 1) d d
  | oneRight (d : ShapeDim) : Joins d (.fixed 1) d

/-- The dimension at a place, counted from the end. Where a shape has no more dimensions, they are
ones. -/
def dimFromEnd (shape : List ShapeDim) (i : Nat) : ShapeDim :=
  shape.reverse.getD i (.fixed 1)

/-- Two shapes, aligned at their ends, broadcast to a third. -/
structure BroadcastsTo (lhs rhs shape : List ShapeDim) : Prop where
  length : shape.length = max lhs.length rhs.length
  joins : ∀ i, (dimFromEnd lhs i).Joins (dimFromEnd rhs i) (dimFromEnd shape i)

/-! ## Types of names -/

/-- Shape and element type of a value of a model. -/
structure ValueType where
  shape : List ShapeDim
  dtype : DType
  deriving DecidableEq

/-- The type that a record says. -/
def ValueRecord.type (r : ValueRecord) : ValueType :=
  ⟨r.shape, r.dtype⟩

/-- The type of a constant. -/
def Tensor.valueType (t : Tensor) : ValueType :=
  ⟨t.dims.map .fixed, t.dtype⟩

/-- The record of a name in a graph. -/
def Graph.record? (g : Graph) (name : String) : Option ValueRecord :=
  findRecord? (g.inputs ++ g.outputs ++ g.records) name

theorem Graph.record?_eq (g : Graph) (name : String) : g.record? name =
    ((findRecord? g.inputs name).or (findRecord? g.outputs name)).or
      (findRecord? g.records name) := by
  rw [record?, findRecord?, List.find?_append, List.find?_append]
  rfl

/-- The type of a name in a graph. -/
def Graph.type? (g : Graph) (name : String) : Option ValueType :=
  match g.record? name with
  | some r => some r.type
  | none => (g.initializer? name).map fun i => i.tensor.valueType

/-- The type of a name in a function. -/
def Function.type? (f : Function) (name : String) : Option ValueType :=
  (f.record? name).map ValueRecord.type

/-! ## Well-typed models -/

/-- The operands and outputs of a node have types, and they fit together. -/
inductive Node.Typed (functions : List Function) (type? : String → Option ValueType) (n : Node) :
    Prop where
  | arithmetic {x y z : String} {a b : ValueType} {shape : List ShapeDim}
      (operation : n.opType ∈ ["Add", "Mul", "Pow"]) (isCall : n.isCall = false)
      (inputs : n.inputs = [x, y]) (outputs : n.outputs = [z]) (lhs : type? x = some a)
      (rhs : type? y = some b) (result : type? z = some ⟨shape, a.dtype⟩)
      (broadcasts : BroadcastsTo a.shape b.shape shape)
  | identity {x z : String} {a : ValueType} (operation : n.opType = "Identity")
      (isCall : n.isCall = false) (inputs : n.inputs = [x]) (outputs : n.outputs = [z])
      (source : type? x = some a) (result : type? z = some a)
  | call {f : Function} (isCall : n.isCall = true)
      (target : findFunction? functions n.opType = some f)
      (known : ∀ x ∈ n.inputs ++ n.outputs, (type? x).isSome)
      (taken : n.inputs.map type? = f.inputs.map f.type?)
      (returned : n.outputs.map type? = f.outputs.map f.type?)

/-- Whatever a typed node reads or makes has a type. -/
theorem Node.Typed.isSome {functions : List Function} {type? : String → Option ValueType} {n : Node}
    (h : n.Typed functions type?) : ∀ x ∈ n.inputs ++ n.outputs, (type? x).isSome := by
  cases h with
  | arithmetic operation isCall inputs outputs lhs rhs result broadcasts =>
    simp [inputs, outputs, lhs, rhs, result]
  | identity operation isCall inputs outputs source result => simp [inputs, outputs, source, result]
  | call isCall target known taken returned => exact known

/-- All nodes of a model are typed. -/
structure Model.WellTyped (m : Model) : Prop where
  graph : ∀ n ∈ m.graph.nodes, n.Typed m.functions m.graph.type?
  functions : ∀ f ∈ m.functions, ∀ n ∈ f.nodes, n.Typed m.functions f.type?

/-- The functions of a name take and return values of the same types. -/
def SameInterfaceTypes (functions functions' : List Function) (name : String) : Prop :=
  ∀ f, findFunction? functions name = some f → ∃ f', findFunction? functions' name = some f' ∧
    f'.inputs.map f'.type? = f.inputs.map f.type? ∧ f'.outputs.map f'.type? = f.outputs.map f.type?

/-- A typed node is typed under other names, where these have the types of the old ones. -/
theorem Node.Typed.rename {functions functions' : List Function}
    {type? type?' : String → Option ValueType} {n n' : Node} {ρ : String → String}
    (h : n.Typed functions type?) (hop : n'.opType = n.opType) (hdomain : n'.domain = n.domain)
    (hinputs : n'.inputs = n.inputs.map ρ) (houtputs : n'.outputs = n.outputs.map ρ)
    (htypes : ∀ x ∈ n.inputs ++ n.outputs, type?' (ρ x) = type? x)
    (hfunctions : n.isCall = true → SameInterfaceTypes functions functions' n.opType) :
    n'.Typed functions' type?' := by
  have hcall : n'.isCall = n.isCall := by rw [isCall, isCall, hdomain]
  cases h with
  | @arithmetic x y z a b shape operation isCall inputs outputs lhs rhs result broadcasts =>
    simp only [inputs, outputs, List.map_cons, List.map_nil] at hinputs houtputs
    exact .arithmetic (hop ▸ operation) (hcall.trans isCall) hinputs houtputs
      ((htypes x (by simp [inputs])).trans lhs) ((htypes y (by simp [inputs])).trans rhs)
      ((htypes z (by simp [outputs])).trans result) broadcasts
  | @identity x z a operation isCall inputs outputs source result =>
    simp only [inputs, outputs, List.map_cons, List.map_nil] at hinputs houtputs
    exact .identity (hop.trans operation) (hcall.trans isCall) hinputs houtputs
      ((htypes x (by simp [inputs])).trans source) ((htypes z (by simp [outputs])).trans result)
  | @call f isCall target known taken returned =>
    obtain ⟨f', hf', htaken, hreturned⟩ := hfunctions isCall f target
    refine .call (hcall.trans isCall) (hop ▸ hf') (fun x hx => ?_) ?_ ?_
    · rw [hinputs, houtputs, ← List.map_append] at hx
      obtain ⟨y, hy, rfl⟩ := List.mem_map.1 hx
      rw [htypes y hy]
      exact known y hy
    · rw [hinputs, List.map_map, htaken, ← taken]
      exact List.map_congr_left fun x hx => htypes x (List.mem_append_left _ hx)
    · rw [houtputs, List.map_map, hreturned, ← returned]
      exact List.map_congr_left fun x hx => htypes x (List.mem_append_right _ hx)

/-- A typed node is typed where its names have the same types. -/
theorem Node.Typed.congr {functions functions' : List Function}
    {type? type?' : String → Option ValueType} {n : Node} (h : n.Typed functions type?)
    (htypes : ∀ x ∈ n.inputs ++ n.outputs, type?' x = type? x)
    (hfunctions : n.isCall = true → SameInterfaceTypes functions functions' n.opType) :
    n.Typed functions' type?' :=
  h.rename (ρ := id) rfl rfl (List.map_id _).symm (List.map_id _).symm htypes hfunctions

/-! ## Pruning -/

namespace Model

variable {m : Model}

/-- A constant that a node reads stays. -/
theorem type?_prune {x : String}
    (hx : x ∈ m.graph.nodes.flatMap Node.inputs ∨ x ∉ m.graph.initializerNames) :
    m.prune.graph.type? x = m.graph.type? x := by
  have hinitializer : m.prune.graph.initializer? x = m.graph.initializer? x := by
    simp only [Graph.initializer?, prune, List.find?_filter]
    rcases hx with hread | hnone
    · congr 1
      funext i
      by_cases hi : i.name = x
      · simpa [hi, readsInitializer] using hread
      · simp [hi]
    · have hnames : ∀ i ∈ m.graph.initializers, (i.name == x) = false := fun i hi =>
        beq_eq_false_iff_ne.2 fun hname => hnone (hname ▸ List.mem_map_of_mem hi)
      rw [List.find?_eq_none.2 fun i hi => by simp [hnames i hi],
        List.find?_eq_none.2 fun i hi => by simp [hnames i hi]]
  have hrecord : m.prune.graph.record? x = m.graph.record? x := rfl
  rw [Graph.type?, Graph.type?, hrecord, hinitializer]

/-- Constants have no records, and nodes do not make them. -/
structure ConstantsApart (m : Model) : Prop where
  unrecorded : ∀ x ∈ m.graph.initializerNames, m.graph.record? x = none
  unmade : ∀ x ∈ m.graph.initializerNames, x ∉ m.graph.nodes.flatMap Node.outputs

theorem ConstantsApart.prune (h : m.ConstantsApart) : m.prune.ConstantsApart where
  unrecorded x hx := h.unrecorded x (mem_initializerNames_prune.1 hx).1
  unmade x hx := h.unmade x (mem_initializerNames_prune.1 hx).1

theorem ConstantsApart.withoutDeadNodes (h : m.ConstantsApart) :
    m.withoutDeadNodes.ConstantsApart where
  unrecorded x hx := by
    have hnone := h.unrecorded x hx
    rw [Graph.record?, findRecord?, List.find?_eq_none] at hnone ⊢
    refine fun r hr => hnone r ?_
    simp only [Model.withoutDeadNodes, List.mem_append, List.mem_filter] at hr ⊢
    exact hr.imp_right And.left
  unmade x hx hmade := by
    obtain ⟨n, hn, hxn⟩ := List.mem_flatMap.1 hmade
    exact h.unmade x hx (List.mem_flatMap.2 ⟨n, (liveNodes_sublist _ _).subset hn, hxn⟩)

theorem WellTyped.prune (h : m.WellTyped) (hconstants : m.ConstantsApart) : m.prune.WellTyped where
  graph n hn := (h.graph n hn).congr (fun x hx => type?_prune ((List.mem_append.1 hx).imp
    (fun hread => List.mem_flatMap.2 ⟨n, hn, hread⟩)
    fun hmade hconstant => hconstants.unmade x hconstant (List.mem_flatMap.2 ⟨n, hn, hmade⟩)))
    fun _ f hf => ⟨f, hf, rfl, rfl⟩
  functions := h.functions

/-! ## Dead-node elimination -/

/-- Live nodes read and make names that keep their types. -/
theorem type?_withoutDeadNodes (hconstants : m.ConstantsApart) {x : String}
    (hx : x ∈ m.graph.inputNames ++ m.graph.initializerNames ++
      m.withoutDeadNodes.graph.nodes.flatMap Node.outputs) :
    m.withoutDeadNodes.graph.type? x = m.graph.type? x := by
  have hrecord : m.withoutDeadNodes.graph.record? x = m.graph.record? x := by
    rcases List.mem_append.1 hx with hx | hmade
    · rcases List.mem_append.1 hx with hinput | hconstant
      · obtain ⟨r, hr, rfl⟩ := List.mem_map.1 hinput
        obtain ⟨s, hs⟩ : ∃ s, findRecord? m.graph.inputs r.name = some s :=
          Option.isSome_iff_exists.1 (List.find?_isSome.2 ⟨r, hr, by simp⟩)
        have hinputs : m.withoutDeadNodes.graph.inputs = m.graph.inputs := rfl
        rw [Graph.record?_eq, Graph.record?_eq, hinputs, hs, Option.some_or, Option.some_or,
          Option.some_or, Option.some_or]
      · rw [hconstants.unrecorded x hconstant]
        exact hconstants.withoutDeadNodes.unrecorded x hconstant
    · have hkept : findRecord? m.withoutDeadNodes.graph.records x = findRecord? m.graph.records x :=
        findRecord?_filter (fun _ hr => hr ▸ List.contains_iff_mem.2 hmade) m.graph.records
      rw [Graph.record?_eq, Graph.record?_eq, hkept]
      rfl
  rw [Graph.type?, Graph.type?, hrecord]
  rfl

/-- A function that stays keeps the types of its inputs and outputs. -/
theorem sameInterfaceTypes_withoutDeadNodes (hvalid : ∀ f ∈ m.functions, f.Valid m.functions)
    {name : String} (hname : name ∈ m.reached) :
    SameInterfaceTypes m.functions m.withoutDeadNodes.functions name := by
  intro f hf
  have htypes : ∀ x ∈ f.inputs ++ f.outputs, f.withoutDeadNodes.type? x = f.type? x :=
    fun x hx => by
    rw [Function.type?, Function.type?,
      Function.record?_withoutDeadNodes
      ((hvalid f (List.mem_of_find?_eq_some hf)).mem_of_interface hx)]
  refine ⟨f.withoutDeadNodes, ?_,
    List.map_congr_left fun x hx => htypes x (List.mem_append_left _ hx),
    List.map_congr_left fun x hx => htypes x (List.mem_append_right _ hx)⟩
  rw [functions_withoutDeadNodes, findFunction?_keptFunctions _ hname, hf, Option.map_some]

theorem mem_of_liveNodes {defined outputs : List String} {nodes : List Node}
    (hreads : ReadsFrom defined nodes) {n : Node} (hn : n ∈ liveNodes outputs nodes) {x : String}
    (hx : x ∈ n.inputs ++ n.outputs) :
    x ∈ defined ++ (liveNodes outputs nodes).flatMap Node.outputs := by
  rcases List.mem_append.1 hx with hx | hx
  · exact hreads.liveNodes.mem_of_mem_inputs hn hx
  · exact List.mem_append_right _ (List.mem_flatMap.2 ⟨n, hn, hx⟩)

theorem WellTyped.withoutDeadNodes (h : m.WellTyped) (hproper : m.Proper)
    (hconstants : m.ConstantsApart) :
    m.withoutDeadNodes.WellTyped where
  graph n hn := (h.graph n ((liveNodes_sublist _ _).subset hn)).congr
    (fun _ hx => type?_withoutDeadNodes hconstants (mem_of_liveNodes hproper.reads hn hx))
    fun hcall => sameInterfaceTypes_withoutDeadNodes hproper.functions (mem_reached hn hcall)
  functions f hf n hn := by
    obtain ⟨hf, hreached⟩ := List.mem_filter.1 hf
    obtain ⟨g, hg, rfl⟩ := List.mem_map.1 hf
    refine (h.functions g hg n ((liveNodes_sublist _ _).subset hn)).congr (fun x hx => ?_)
      fun hcall =>
      sameInterfaceTypes_withoutDeadNodes hproper.functions
        (mem_reached_of_call hg (List.contains_iff_mem.1 hreached) hn hcall)
    rw [Function.type?, Function.type?, Function.record?_withoutDeadNodes
      (mem_of_liveNodes (hproper.functions g hg).reads hn hx)]

/-- Finishing a lowered model keeps it well typed. -/
theorem WellTyped.finished (h : m.WellTyped) (hproper : m.Proper) (hconstants : m.ConstantsApart)
    (optimizer : Optimizer) (options : ConversionOptions) :
    (m.finished optimizer options).WellTyped := by
  unfold Model.finished
  split
  · cases optimizer with
    | noop => exact h.prune hconstants
    | deadNodeElimination =>
      exact ((h.prune hconstants).withoutDeadNodes hproper.prune hconstants.prune).prune
        hconstants.prune.withoutDeadNodes
  · exact h.prune hconstants

end Model

end TensorGraph
