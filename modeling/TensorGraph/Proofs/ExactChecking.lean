import TensorGraph.Proofs.Elimination

/-!
# What the check of a model decides

`Model.Rules` states the rules of a finished model by places : a node reads names that are given or
that a node at an earlier place defines, and a call passes as many inputs as its target takes. The
check gathers the defined names along a scan instead, and it decides just these rules
(`Model.problems_eq_nil_iff_rules`).

Which function a call targets is left open in the rules. The check compares a call with the last
function of its name, while everything else that looks a function up finds the first one
(`Model.function?`). Where two functions of one name take different numbers of inputs, the check can
refuse a model that keeps the rules for the first ones and accept one that breaks them
(`Model.problems_eq_nil_iff_rules_shadowed`). It would have to look at the functions in reverse
order.
-/

namespace TensorGraph

/-! ## Rules by places -/

/-- The name can be read at a place of a body : it is given, or a node at an earlier place defines
it. -/
def ReadableAt (given : List String) (nodes : List Node) (place : Nat) (x : String) : Prop :=
  x ∈ given ∨ ∃ i < place, ∃ n, nodes[i]? = some n ∧ x ∈ n.outputs

/-- The rules for the nodes of a body. -/
structure BodyRules (target? : String → Option Function) (given : List String) (nodes : List Node) :
    Prop where
  names : (nodes.map Node.name).Nodup
  reads : ∀ i n, nodes[i]? = some n → ∀ x ∈ n.inputs, ReadableAt given nodes i x
  calls : ∀ n ∈ nodes, n.isCall = true → ∃ f, target? n.opType = some f ∧
    f.inputs.length = n.inputs.length

/-- The rules for a model, where `target?` gives the functions that calls target. -/
structure Model.Rules (m : Model) (target? : String → Option Function) : Prop where
  graph : BodyRules target? (m.graph.inputNames ++ m.graph.initializerNames) m.graph.nodes
  bodies : ∀ f ∈ m.functions, BodyRules target? f.inputs f.nodes
  produced : ∀ x ∈ m.graph.outputNames,
    x ∈ m.graph.inputNames ∨ x ∈ m.graph.initializerNames ∨ ∃ n ∈ m.graph.nodes, x ∈ n.outputs
  producedIn : ∀ f ∈ m.functions, ∀ x ∈ f.outputs, x ∈ f.inputs ∨ ∃ n ∈ f.nodes, x ∈ n.outputs
  read : ∀ x ∈ m.graph.initializerNames, ∃ n ∈ m.graph.nodes, x ∈ n.inputs
  recorded : ∀ f ∈ m.functions, ∀ x ∈ f.inputs ++ f.outputs, ∃ r ∈ f.records, r.name = x

/-- The nodes of all bodies. -/
def Model.allNodes (m : Model) : List Node :=
  m.graph.nodes ++ m.functions.flatMap Function.nodes

/-! ## Scans -/

theorem readableAt_zero {given : List String} {nodes : List Node} {x : String} :
    ReadableAt given nodes 0 x ↔ x ∈ given := by
  simp [ReadableAt]

/-- After its first node, a body goes on with what that node defines given too. -/
theorem readableAt_succ {given : List String} {n : Node} {rest : List Node} {place : Nat}
    {x : String} :
    ReadableAt given (n :: rest) (place + 1) x ↔ ReadableAt (given ++ n.outputs) rest place x := by
  unfold ReadableAt
  rw [List.mem_append, or_assoc]
  refine or_congr_right ⟨?_, ?_⟩
  · rintro ⟨i, hi, m, hm, hx⟩
    cases i with
    | zero =>
      obtain rfl : n = m := by simpa using hm
      exact Or.inl hx
    | succ i => exact Or.inr ⟨i, Nat.lt_of_succ_lt_succ hi, m, by simpa using hm, hx⟩
  · rintro (hx | ⟨i, hi, m, hm, hx⟩)
    · exact ⟨0, Nat.succ_pos _, n, rfl, hx⟩
    · exact ⟨i + 1, Nat.succ_lt_succ hi, m, by simpa using hm, hx⟩

/-- A scan that gathers the defined names looks at each place for what is defined before it. -/
theorem readsFrom_iff_readableAt {given : List String} {nodes : List Node} :
    ReadsFrom given nodes ↔ ∀ i n, nodes[i]? = some n → ∀ x ∈ n.inputs,
      ReadableAt given nodes i x := by
  induction nodes generalizing given with
  | nil => simp [ReadsFrom]
  | cons n rest ih =>
    rw [ReadsFrom, ih]
    constructor
    · rintro ⟨hfirst, hrest⟩ i m hm x hx
      cases i with
      | zero =>
        obtain rfl : n = m := by simpa using hm
        exact readableAt_zero.2 (hfirst x hx)
      | succ i => exact readableAt_succ.2 (hrest i m (by simpa using hm) x hx)
    · intro h
      exact ⟨fun x hx => readableAt_zero.1 (h 0 n rfl x hx),
        fun i m hm x hx => readableAt_succ.1 (h (i + 1) m (by simpa using hm) x hx)⟩

theorem keepsRules_iff_bodyRules {functions : List Function} {given : List String}
    {nodes : List Node} :
    KeepsRules functions given nodes ↔ BodyRules (findFunction? functions.reverse) given nodes :=
  ⟨fun h => ⟨h.names, readsFrom_iff_readableAt.1 h.reads, h.calls⟩,
    fun h => ⟨h.names, readsFrom_iff_readableAt.2 h.reads, h.calls⟩⟩

/-! ## Targets -/

/-- Only the number of inputs that a target takes matters to a call. -/
theorem BodyRules.retarget {target? target?' : String → Option Function} {given : List String}
    {nodes : List Node} (h : BodyRules target? given nodes)
    (hcalls : ∀ n ∈ nodes, n.isCall = true →
      (target?' n.opType).map (·.inputs.length) = (target? n.opType).map (·.inputs.length)) :
    BodyRules target?' given nodes where
  names := h.names
  reads := h.reads
  calls n hn hcall := by
    obtain ⟨f, hf, hlength⟩ := h.calls n hn hcall
    have hsame := hcalls n hn hcall
    rw [hf, Option.map_some] at hsame
    obtain ⟨g, hg, hinputs⟩ := Option.map_eq_some_iff.1 hsame
    exact ⟨g, hg, hinputs.trans hlength⟩

namespace Model

variable {m : Model}

theorem Rules.retarget {target? target?' : String → Option Function} (h : m.Rules target?)
    (hcalls : ∀ n ∈ m.allNodes, n.isCall = true →
      (target?' n.opType).map (·.inputs.length) = (target? n.opType).map (·.inputs.length)) :
    m.Rules target?' where
  graph := h.graph.retarget fun n hn => hcalls n (List.mem_append_left _ hn)
  bodies f hf := (h.bodies f hf).retarget fun n hn =>
    hcalls n (List.mem_append_right _ (List.mem_flatMap.2 ⟨f, hf, hn⟩))
  produced := h.produced
  producedIn := h.producedIn
  read := h.read
  recorded := h.recorded

/-- Where calls keep their targets, the other functions can come in any order or be left out. -/
theorem Rules.of_subset {m' : Model} {target? : String → Option Function} (h : m.Rules target?)
    (hgraph : m'.graph = m.graph) (hfunctions : ∀ f ∈ m'.functions, f ∈ m.functions) :
    m'.Rules target? where
  graph := hgraph ▸ h.graph
  bodies f hf := h.bodies f (hfunctions f hf)
  produced := hgraph ▸ h.produced
  producedIn f hf := h.producedIn f (hfunctions f hf)
  read := hgraph ▸ h.read
  recorded f hf := h.recorded f (hfunctions f hf)

/-- The check decides the rules for the last functions of their names. -/
theorem problems_eq_nil_iff_rules_lastFunction? : m.problems = [] ↔ m.Rules m.lastFunction? := by
  have hrecord : ∀ (f : Function) (x : String), (f.record? x).isSome ↔ ∃ r ∈ f.records,
      r.name = x := fun f x => by
    simp [Function.record?, findRecord?]
  rw [problems_eq_nil_iff]
  constructor
  · intro h
    refine ⟨keepsRules_iff_bodyRules.1 h.toKeepsRules,
      fun f hf => keepsRules_iff_bodyRules.1 (h.functions f hf).toKeepsRules, fun x hx => ?_,
      fun f hf x hx => ?_, fun x hx => List.mem_flatMap.1 (h.read x hx), fun f hf x hx =>
        (hrecord f x).1 ((h.functions f hf).recorded x hx)⟩
    · simpa [or_assoc] using h.produced x hx
    · simpa using (h.functions f hf).produced x hx
  · intro h
    refine ⟨keepsRules_iff_bodyRules.2 h.graph, fun x hx => ?_,
      fun x hx => List.mem_flatMap.2 (h.read x hx), fun f hf =>
        ⟨keepsRules_iff_bodyRules.2 (h.bodies f hf), fun x hx => ?_,
          fun x hx => (hrecord f x).2 (h.recorded f hf x hx)⟩⟩
    · simpa [or_assoc] using h.produced x hx
    · simpa using h.producedIn f hf x hx

/-- The model with its functions in reverse order. -/
def flipped (m : Model) : Model :=
  { m with functions := m.functions.reverse }

theorem rules_flipped_iff {target? : String → Option Function} :
    m.flipped.Rules target? ↔ m.Rules target? :=
  ⟨fun h => h.of_subset rfl fun _ hf => List.mem_reverse.2 hf,
    fun h => h.of_subset rfl fun _ hf => List.mem_reverse.1 hf⟩

theorem lastFunction?_flipped (m : Model) : m.flipped.lastFunction? = m.function? := by
  funext name
  simp [lastFunction?, flipped, function?]

/-- The first function of a name is the last one where names are distinct. -/
theorem lastFunction?_eq_function? (hnodup : (m.functions.map Function.name).Nodup) :
    m.lastFunction? = m.function? := by
  funext name
  have hreverse : (m.functions.reverse.map Function.name).Nodup := by
    rwa [List.map_reverse, List.nodup_reverse]
  cases hfirst : m.function? name with
  | none =>
    refine findFunction?_eq_none_iff.2 fun f hf => ?_
    exact findFunction?_eq_none_iff.1 hfirst f (List.mem_reverse.1 hf)
  | some f =>
    obtain rfl : f.name = name := by simpa using List.find?_some hfirst
    exact findFunction?_of_mem hreverse (List.mem_reverse.2 (List.mem_of_find?_eq_some hfirst))

/-- A model passes the check exactly if it keeps the rules for the last functions of their names. It
keeps them for the first ones, which calls target, exactly if it passes with its functions in
reverse order. The two are the same where in every call the first and the last function of the name
take the same number of inputs, and so where functions have distinct names. -/
theorem problems_eq_nil_iff_rules (m : Model) :
    (m.problems = [] ↔ m.Rules m.lastFunction?) ∧ (m.flipped.problems = [] ↔ m.Rules m.function?) ∧
      ((∀ n ∈ m.allNodes, n.isCall = true →
          (m.function? n.opType).map (·.inputs.length) = (m.lastFunction? n.opType).map
            (·.inputs.length)) →
        (m.problems = [] ↔ m.Rules m.function?)) ∧
      ((m.functions.map Function.name).Nodup → (m.problems = [] ↔ m.Rules m.function?)) := by
  refine ⟨problems_eq_nil_iff_rules_lastFunction?, ?_, fun hcalls => ?_, fun hnodup => ?_⟩
  · rw [problems_eq_nil_iff_rules_lastFunction?, lastFunction?_flipped, rules_flipped_iff]
  · rw [problems_eq_nil_iff_rules_lastFunction?]
    exact ⟨fun h => h.retarget hcalls,
      fun h => h.retarget fun n hn hcall => (hcalls n hn hcall).symm⟩
  · rw [problems_eq_nil_iff_rules_lastFunction?, lastFunction?_eq_function? hnodup]

end Model

namespace Example

/-- The first one of two functions with the same name and other inputs takes as many as the call
passes. -/
def shadowed : Model where
  producer := "example"
  opset := 18
  graph := {
    name := "shadowed"
    inputs := [scalar "x"]
    outputs := [scalar "y"]
    nodes := [callTo "call" "f" ["x"] ["y"]]
    initializers := []
    records := [] }
  functions :=
    [⟨"f", functionDomain, ["in_0"], 0, ["out_0"], [.plain "Neg" "Neg_0" ["in_0"] ["out_0"]],
       [scalar "in_0", scalar "out_0"]⟩,
     ⟨"f", functionDomain, ["in_0", "in_1"], 0, ["out_0"],
       [.plain "Add" "Add_0" ["in_0", "in_1"] ["out_0"]],
       [scalar "in_0", scalar "in_1", scalar "out_0"]⟩]

end Example

namespace Model

/-- The check refuses this model, which keeps the rules for the first functions, and accepts the
model with the two functions exchanged, which does not keep them. -/
theorem problems_eq_nil_iff_rules_shadowed :
    Example.shadowed.problems = [.inputCount .graph "call" 1 "f" 2] ∧
      Example.shadowed.Rules Example.shadowed.function? ∧
      Example.shadowed.flipped.problems = [] ∧
      ¬ Example.shadowed.flipped.Rules Example.shadowed.flipped.function? := by
  refine ⟨by decide, (problems_eq_nil_iff_rules _).2.1.1 (by decide), by decide, fun h => ?_⟩
  have hflipped := (problems_eq_nil_iff_rules _).2.1.2 h
  revert hflipped
  decide

end Model

end TensorGraph
