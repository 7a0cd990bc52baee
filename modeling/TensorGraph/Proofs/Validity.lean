import TensorGraph.Model.Check
import TensorGraph.Proofs.DeadNodes
import TensorGraph.Proofs.TotalConversion

/-!
# Converted models are valid

`Model.problems` is empty just when a model keeps all rules (`Model.problems_eq_nil_iff`). Pruning
makes a model valid that keeps them up to unread constants (`Model.Proper.valid_prune`), dead-node
elimination keeps such a model one (`Model.Proper.withoutDeadNodes`), and lowered models are such
ones (`Model.Translates.proper`). So every conversion that succeeds returns a valid model.
-/

namespace TensorGraph

/-! ## The rules -/

/-- The node calls no function, or passes as many inputs as the last function of its name takes. -/
def Node.Calls (functions : List Function) (n : Node) : Prop :=
  n.isCall = true → ∃ f,
    findFunction? functions.reverse n.opType = some f ∧ f.inputs.length = n.inputs.length

/-- The rules for the nodes of a body that can read `defined`. -/
structure KeepsRules (functions : List Function) (defined : List String) (nodes : List Node) :
    Prop where
  names : (nodes.map Node.name).Nodup
  reads : ReadsFrom defined nodes
  calls : ∀ n ∈ nodes, n.Calls functions

/-- The rules for a function. -/
structure Function.Valid (functions : List Function) (f : Function) : Prop
    extends KeepsRules functions f.inputs f.nodes where
  produced : ∀ x ∈ f.outputs, x ∈ f.inputs ++ f.nodes.flatMap Node.outputs
  recorded : ∀ x ∈ f.inputs ++ f.outputs, (f.record? x).isSome

/-- The rules for a model. -/
structure Model.Valid (m : Model) : Prop
    extends KeepsRules m.functions (m.graph.inputNames ++ m.graph.initializerNames)
    m.graph.nodes where
  produced : ∀ x ∈ m.graph.outputNames,
    x ∈ m.graph.inputNames ++ m.graph.initializerNames ++ m.graph.nodes.flatMap Node.outputs
  read : ∀ x ∈ m.graph.initializerNames, x ∈ m.graph.nodes.flatMap Node.inputs
  functions : ∀ f ∈ m.functions, f.Valid m.functions

theorem keepsRules_cons {functions : List Function} {defined : List String} {n : Node}
    {rest : List Node} :
    KeepsRules functions defined (n :: rest) ↔ (∀ x ∈ n.inputs, x ∈ defined) ∧ n.Calls functions ∧
      (∀ k ∈ rest, k.name ≠ n.name) ∧ KeepsRules functions (defined ++ n.outputs) rest := by
  constructor
  · rintro ⟨hnames, hreads, hcalls⟩
    rw [List.map_cons, List.nodup_cons] at hnames
    exact ⟨hreads.1, hcalls n (by simp), fun k hk h => hnames.1 (List.mem_map.2 ⟨k, hk, h⟩),
      hnames.2, hreads.2, fun k hk => hcalls k (by simp [hk])⟩
  · rintro ⟨hreads, hcall, hname, hrest⟩
    refine ⟨?_, ⟨hreads, hrest.reads⟩, by simpa [hcall] using hrest.calls⟩
    rw [List.map_cons, List.nodup_cons]
    exact ⟨by simpa using hname, hrest.names⟩

namespace Model

variable {m : Model}

theorem filter_not_contains_eq_nil_iff {xs ys : List String} :
    (xs.filter fun x => !ys.contains x) = [] ↔ ∀ x ∈ xs, x ∈ ys := by
  simp

theorem callProblems_eq_nil_iff {scope : Scope} {n : Node} :
    m.callProblems scope n = [] ↔ n.Calls m.functions := by
  unfold callProblems lastFunction? Node.Calls
  cases hcall : n.isCall with
  | false => simp
  | true => cases hfind : findFunction? m.functions.reverse n.opType <;> simp

theorem bodyProblems_eq_nil_iff {scope : Scope} {seen defined : List String} {nodes : List Node} :
    m.bodyProblems scope seen defined nodes = [] ↔ (∀ n ∈ nodes, n.name ∉ seen) ∧
      KeepsRules m.functions defined nodes := by
  induction nodes generalizing seen defined with
  | nil =>
    have hnil : KeepsRules m.functions defined [] := ⟨.nil, trivial, by simp⟩
    simp [bodyProblems, hnil]
  | cons n rest ih =>
    have hnode : m.nodeProblems scope seen defined n = [] ↔
        n.name ∉ seen ∧ (∀ x ∈ n.inputs, x ∈ defined) ∧ n.Calls m.functions := by
      simp [nodeProblems, callProblems_eq_nil_iff]
    rw [bodyProblems, List.append_eq_nil_iff, hnode, ih, keepsRules_cons, List.forall_mem_cons]
    simp only [List.mem_cons, not_or, forall_and]
    tauto

theorem outputProblems_eq_nil_iff {scope : Scope} {defined outputs : List String}
    {nodes : List Node} :
    outputProblems scope defined nodes outputs = [] ↔ ∀ x ∈ outputs,
      x ∈ defined ++ nodes.flatMap Node.outputs := by
  rw [outputProblems, List.map_eq_nil_iff, filter_not_contains_eq_nil_iff]

theorem functionProblems_eq_nil_iff {f : Function} :
    m.functionProblems f = [] ↔ f.Valid m.functions := by
  have hrecorded : ((f.inputs ++ f.outputs).filter fun name => (f.record? name).isNone).map
      (Problem.noRecord (.function f.name)) = [] ↔ ∀ x ∈ f.inputs ++ f.outputs,
      (f.record? x).isSome := by
    rw [List.map_eq_nil_iff, List.filter_eq_nil_iff]
    exact forall₂_congr fun x _ => by simp [Option.isSome_iff_ne_none]
  simp only [functionProblems, List.append_eq_nil_iff, bodyProblems_eq_nil_iff,
    outputProblems_eq_nil_iff, hrecorded]
  exact ⟨fun ⟨⟨⟨_, hrules⟩, hrecorded⟩, hproduced⟩ => ⟨hrules, hproduced, hrecorded⟩,
    fun ⟨hrules, hproduced, hrecorded⟩ => ⟨⟨⟨by simp, hrules⟩, hrecorded⟩, hproduced⟩⟩

theorem graphProblems_eq_nil_iff : m.graphProblems = [] ↔
    KeepsRules m.functions (m.graph.inputNames ++ m.graph.initializerNames) m.graph.nodes ∧
      (∀ x ∈ m.graph.outputNames,
        x ∈ m.graph.inputNames ++ m.graph.initializerNames ++ m.graph.nodes.flatMap Node.outputs) ∧
      ∀ x ∈ m.graph.initializerNames, x ∈ m.graph.nodes.flatMap Node.inputs := by
  simp only [graphProblems, List.append_eq_nil_iff, bodyProblems_eq_nil_iff,
    outputProblems_eq_nil_iff, List.map_eq_nil_iff, filter_not_contains_eq_nil_iff,
    List.not_mem_nil, not_false_eq_true, implies_true, true_and, and_assoc]

/-- A model without problems is one that keeps the rules. -/
theorem problems_eq_nil_iff : m.problems = [] ↔ m.Valid := by
  simp only [problems, List.append_eq_nil_iff, graphProblems_eq_nil_iff, List.flatMap_eq_nil_iff,
    functionProblems_eq_nil_iff]
  exact ⟨fun ⟨⟨hrules, hproduced, hread⟩, hfunctions⟩ => ⟨hrules, hproduced, hread, hfunctions⟩,
    fun ⟨hrules, hproduced, hread, hfunctions⟩ => ⟨⟨hrules, hproduced, hread⟩, hfunctions⟩⟩

end Model

/-! ## Dead-node elimination -/

section Eliminate

variable {functions : List Function} {reached : List String}

theorem Node.Calls.kept {n : Node} (h : n.Calls functions)
    (hreached : n.isCall = true → n.opType ∈ reached) :
    n.Calls (keptFunctions functions reached) := by
  intro hcall
  obtain ⟨f, hf, hlength⟩ := h hcall
  exact ⟨f.withoutDeadNodes, by
    rw [← keptFunctions_reverse, findFunction?_keptFunctions _ (hreached hcall), hf,
      Option.map_some], hlength⟩

theorem KeepsRules.liveNodes {defined outputs : List String} {nodes : List Node}
    (h : KeepsRules functions defined nodes)
    (hreached : ∀ n ∈ liveNodes outputs nodes, n.isCall = true → n.opType ∈ reached) :
    KeepsRules (keptFunctions functions reached) defined (liveNodes outputs nodes) where
  names := h.names.sublist ((liveNodes_sublist outputs nodes).map Node.name)
  reads := h.reads.liveNodes
  calls n hn := (h.calls n ((liveNodes_sublist outputs nodes).subset hn)).kept (hreached n hn)

theorem mem_append_liveNodes {inputs outputs : List String} {nodes : List Node} {x : String}
    (hx : x ∈ outputs) (hmem : x ∈ inputs ++ nodes.flatMap Node.outputs) :
    x ∈ inputs ++ (liveNodes outputs nodes).flatMap Node.outputs :=
  List.mem_append.2 ((List.mem_append.1 hmem).imp_right (mem_outputs_liveNodes hx))

/-- Inputs and outputs of live nodes keep their records. -/
theorem Function.record?_withoutDeadNodes {f : Function} {x : String}
    (hx : x ∈ f.inputs ++ f.withoutDeadNodes.nodes.flatMap Node.outputs) :
    f.withoutDeadNodes.record? x = f.record? x :=
  findRecord?_filter (fun _ hr => hr ▸ List.contains_iff_mem.2 hx) f.records

/-- Inputs and outputs are among what live nodes leave. -/
theorem Function.Valid.mem_of_interface {f : Function} (h : f.Valid functions) {x : String}
    (hx : x ∈ f.inputs ++ f.outputs) :
    x ∈ f.inputs ++ f.withoutDeadNodes.nodes.flatMap Node.outputs := by
  rcases List.mem_append.1 hx with hx | hx
  · exact List.mem_append_left _ hx
  · exact mem_append_liveNodes hx (h.produced x hx)

theorem Function.Valid.withoutDeadNodes {f : Function} (h : f.Valid functions)
    (hreached : ∀ n ∈ f.withoutDeadNodes.nodes, n.isCall = true → n.opType ∈ reached) :
    f.withoutDeadNodes.Valid (keptFunctions functions reached) where
  toKeepsRules := h.toKeepsRules.liveNodes hreached
  produced x hx := mem_append_liveNodes hx (h.produced x hx)
  recorded x hx := by
    rw [record?_withoutDeadNodes (h.mem_of_interface hx)]
    exact h.recorded x hx

end Eliminate

namespace Model

/-- A model that is valid up to constants that no node reads, and that outputs no constant
itself. -/
structure Proper (m : Model) : Prop
    extends KeepsRules m.functions (m.graph.inputNames ++ m.graph.initializerNames)
    m.graph.nodes where
  produced : ∀ x ∈ m.graph.outputNames, x ∈ m.graph.inputNames ++ m.graph.nodes.flatMap Node.outputs
  functions : ∀ f ∈ m.functions, f.Valid m.functions

variable {m : Model}

theorem mem_initializerNames_prune {x : String} : x ∈ m.prune.graph.initializerNames ↔
    x ∈ m.graph.initializerNames ∧ x ∈ m.graph.nodes.flatMap Node.inputs := by
  simp only [prune, Graph.initializerNames, readsInitializer, List.mem_map, List.mem_filter,
    List.contains_iff_mem]
  constructor
  · rintro ⟨i, ⟨hi, hread⟩, rfl⟩
    exact ⟨⟨i, hi, rfl⟩, hread⟩
  · rintro ⟨⟨i, hi, rfl⟩, hread⟩
    exact ⟨i, ⟨hi, hread⟩, rfl⟩

/-- The nodes of the graph do not need unread constants. -/
theorem keepsRules_prune
    (h : KeepsRules m.functions (m.graph.inputNames ++ m.graph.initializerNames) m.graph.nodes) :
    KeepsRules m.prune.functions (m.prune.graph.inputNames ++ m.prune.graph.initializerNames)
      m.prune.graph.nodes where
  names := h.names
  reads := h.reads.restrict fun x hx hread => by
    rcases List.mem_append.1 hx with hx | hx
    · exact List.mem_append_left _ hx
    · exact List.mem_append_right _ (mem_initializerNames_prune.2 ⟨hx, hread⟩)
  calls := h.calls

theorem valid_withoutDeadNodes (h : ∀ f ∈ m.functions, f.Valid m.functions) :
    ∀ f ∈ m.withoutDeadNodes.functions, f.Valid m.withoutDeadNodes.functions := by
  intro f hf
  obtain ⟨hf, hreached⟩ := List.mem_filter.1 hf
  obtain ⟨g, hg, rfl⟩ := List.mem_map.1 hf
  exact (h g hg).withoutDeadNodes fun _ hn =>
    mem_reached_of_call hg (List.contains_iff_mem.1 hreached) hn

namespace Proper

theorem prune (h : m.Proper) : m.prune.Proper where
  toKeepsRules := keepsRules_prune h.toKeepsRules
  produced := h.produced
  functions := h.functions

/-- Without unread constants the model is valid. -/
theorem valid_prune (h : m.Proper) : m.prune.Valid where
  toKeepsRules := h.prune.toKeepsRules
  produced x hx := by
    rcases List.mem_append.1 (h.produced x hx) with hx | hx
    · exact List.mem_append_left _ (List.mem_append_left _ hx)
    · exact List.mem_append_right _ hx
  read x hx := (mem_initializerNames_prune.1 hx).2
  functions := h.functions

theorem withoutDeadNodes (h : m.Proper) : m.withoutDeadNodes.Proper where
  toKeepsRules := h.toKeepsRules.liveNodes fun _ hn => Model.mem_reached hn
  produced x hx := mem_append_liveNodes hx (h.produced x hx)
  functions := valid_withoutDeadNodes h.functions

/-- Dead-node elimination leaves a valid model. -/
theorem valid_eliminateDead (h : m.Proper) : m.eliminateDead.Valid :=
  h.withoutDeadNodes.valid_prune

end Proper

end Model

/-! ## Lowered models -/

theorem calls_of_mem {functions : List Function} (hnodup : (functions.map Function.name).Nodup)
    {n : Node} {g : Function} (hg : g ∈ functions) (hname : g.name = n.opType)
    (hlength : g.inputs.length = n.inputs.length) :
    n.Calls functions := by
  intro _
  refine ⟨g, ?_, hlength⟩
  rw [← hname]
  exact findFunction?_of_mem (by rwa [List.map_reverse, List.nodup_reverse]) (List.mem_reverse.2 hg)

/-- A function that implements a callable is valid. -/
theorem Implements.valid {program : Program} {settings : Params} {symbols : SymbolTable}
    {σ : Shared} {index : Nat} {types : List AbstractValue} {callee : Callee}
    (h : Implements program settings symbols σ index types callee) (hσ : σ.Tidy) :
    callee.function.Valid σ.functions := by
  cases h with
  | @intro _ _ _ _ _ t l _ _ _ _ _ _ _ f known trace inner translates
    function same member captured infos =>
    rw [captured] at function
    have hcapture := captureFrom_of_inner inner
    have hlocal := translates.localizes hcapture function
    suffices hvalid : f.Valid σ.functions by
      rw [same]
      exact ⟨⟨hvalid.names, hvalid.reads, hvalid.calls⟩, hvalid.produced, hvalid.recorded⟩
    obtain ⟨hrecords, records, hparams, hf⟩ := Level.toFunction_eq_ok.1 function
    refine ⟨⟨hlocal.nodup_names, ?_, fun n hn hcall => ?_⟩, fun x hx => ?_, fun x hx => ?_⟩
    · rw [hlocal.inputs, hlocal.nodes]
      exact Level.readsFrom_localized (translates.readsFrom_captured hcapture)
    · obtain ⟨g, hg, hname, hlength⟩ :=
        translates.exists_target_of_toFunction inner function hn hcall
      exact calls_of_mem hσ.functions_nodup hg hname hlength hcall
    · rw [hlocal.outputs] at hx
      obtain ⟨y, hy, rfl⟩ := List.mem_map.1 hx
      rw [hlocal.nodes, Level.flatMap_outputs_localized]
      exact List.mem_append_right _ (List.mem_map_of_mem (translates.outputs_spec.2 y hy))
    · rw [hlocal.inputs, hlocal.outputs, ← List.map_append] at hx
      obtain ⟨y, hy, rfl⟩ := List.mem_map.1 hx
      have hnamed : ((l.localNames (l.referencedInitializers σ.table)).lookup y).isSome := by
        refine hlocal.named y ?_
        simp only [List.mem_append] at hy ⊢
        tauto
      rw [hf]
      rcases List.mem_append.1 hy with hy | hy
      · rcases List.mem_append.1 hy with hy | hy
        · exact l.isSome_record?_functionWith _ _ _ hnamed (translates.isSome_record?_input hy)
        · exact Level.isSome_record?_param translates.nodup_inputs_captured
            (translates.readsFrom_captured hcapture) _ hparams hy
      · exact l.isSome_record?_functionWith _ _ _ hnamed (hrecords y hy)

/-- A lowered model keeps the rules up to constants that no node reads. -/
theorem Model.Translates.proper {program : Program} {settings : Params} {symbols : SymbolTable}
    {t : Trace} {m : Model} (h : m.Translates program settings symbols t) : m.Proper := by
  obtain ⟨σ, l, names, info, body, tail, decls, hσ, htranslates, hm⟩ := h
  have hnames : (l.nodes.map Node.name).Nodup :=
    htranslates.nodes ▸ htranslates.translation.nodes_nodup
  have hreads := htranslates.readsFrom Implements.captureFrom
  refine ⟨⟨hm.nodes ▸ hnames, ?_, fun n hn hcall => ?_⟩, fun x hx => ?_, fun f hf => ?_⟩
  · rwa [hm.inputNames_eq, hm.initializerNames_eq, hm.nodes]
  · rw [hm.nodes] at hn
    obtain ⟨g, hg, hname, hlength⟩ := htranslates.exists_target (fun _ _ _ => id) hn hcall
    rw [hm.functions]
    exact calls_of_mem hσ.functions_nodup hg hname hlength hcall
  · rw [hm.outputNames_eq] at hx
    rw [hm.nodes]
    exact List.mem_append_right _ (htranslates.outputs_spec.2 x hx)
  · rw [hm.functions] at hf ⊢
    obtain ⟨index, types, callee, hcallee, rfl⟩ := hσ.implemented f hf
    exact hcallee.valid hσ.toTidy

/-- Every conversion with the built-in primitives that succeeds returns a valid model. -/
theorem problems_of_convert {optimizer : Optimizer} {program : Program} {inputs : List InputSpec}
    {options : ConversionOptions} {m : Model}
    (h : (convert .builtin optimizer program inputs options).result = .ok m) : m.problems = [] := by
  obtain ⟨entry, settings, t, counts, lowered, -, -, -, htranslates, rfl⟩ := translates_of_convert h
  have hproper := htranslates.proper
  rw [Model.problems_eq_nil_iff, Model.finished]
  split
  · cases optimizer with
    | noop => exact hproper.valid_prune
    | deadNodeElimination => exact hproper.prune.valid_eliminateDead
  · exact hproper.valid_prune

/-- The example is converted to a valid model. -/
theorem problems_of_convert_example :
    ∃ m, (convert .builtin .deadNodeElimination Example.program Example.inputs .default).result =
      .ok m ∧
      m.problems = [] := by
  obtain ⟨m, h⟩ := Example.exists_convert .deadNodeElimination .default rfl
  exact ⟨m, h, problems_of_convert h⟩

end TensorGraph
