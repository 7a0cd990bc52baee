import Mathlib.Data.List.Flatten
import TensorGraph.Proofs.DistinctNames
import TensorGraph.Proofs.Validity

/-!
# Every name of a converted model is defined once

In a function, every name is defined once and the outputs are outputs of its nodes
(`Function.SingleAssignment`). In a model, inputs, constants, outputs of nodes, nodes and functions
all have different names too (`Model.SingleAssignment`). Lowered models are such models, and pruning
and dead-node elimination only leave names out, so every conversion returns one
(`singleAssignment_of_convert`).
-/

namespace TensorGraph

/-- In a function every name is defined once, and its outputs are different outputs of its nodes. -/
structure Function.SingleAssignment (f : Function) : Prop where
  names : (f.inputs ++ f.nodes.flatMap Node.outputs).Nodup
  nodes : (f.nodes.map Node.name).Nodup
  outputs : f.outputs.Nodup
  produced : ∀ x ∈ f.outputs, x ∈ f.nodes.flatMap Node.outputs

/-- In a model every name is defined once, and its outputs are different outputs of nodes of the
graph. -/
structure Model.SingleAssignment (m : Model) : Prop where
  names : (m.graph.inputNames ++ m.graph.initializerNames ++ m.graph.nodes.flatMap Node.outputs ++
    m.graph.nodes.map Node.name ++ m.functions.map Function.name).Nodup
  outputs : m.graph.outputNames.Nodup
  produced : ∀ x ∈ m.graph.outputNames,
    x ∈ m.graph.nodes.flatMap Node.outputs ∧ x ∉ m.graph.inputNames ∧ x ∉ m.graph.initializerNames
  functions : ∀ f ∈ m.functions, f.SingleAssignment

/-! ## Lowered models -/

section

variable {program : Program} {settings : Params} {symbols : SymbolTable}

/-- The inputs of a level, the constants that it reads and the outputs of its nodes are different
names. -/
theorem Level.Translates.nodup_own {targets : Targets} {σ : Shared} {names : Nat → Option String}
    {info : String → Option Info} {t : Trace} {l : Level} {body tail : List Node}
    {decls : List Declaration}
    (h : l.Translates program symbols targets σ names info t body tail decls) :
    (l.inputs ++ l.referencedInitializers σ.table ++ l.nodes.flatMap Node.outputs).Nodup := by
  have hown := h.translation.own_nodup
  have hnew := h.translation.own_new
  rw [← h.nodes] at hown hnew
  obtain ⟨-, houtputs, hdisjoint⟩ := List.nodup_append.1 hown
  refine List.nodup_append.2 ⟨h.nodup_inputs_captured, houtputs, ?_⟩
  rintro x hx _ hmade rfl
  rcases List.mem_append.1 hx with hx | hx
  · exact hdisjoint x hx x hmade rfl
  · exact hnew x (List.mem_append_right _ hmade) (Level.mem_referencedInitializers.1 hx).2

/-- Local names are different where the names of the level are. -/
theorem Level.Localizes.nodup_map {l : Level} {params : List String} {f : Function} {r : Renaming}
    (h : l.Localizes params f r) {xs : List String} (hnodup : xs.Nodup)
    (hnamed : ∀ x ∈ xs, x ∈ l.inputs ++ params ++ l.nodes.flatMap Node.outputs ++ l.outputs) :
    (xs.map r.apply).Nodup :=
  hnodup.map_on fun x hx y hy hxy =>
    h.injective.eq_of_apply_eq (h.named x (hnamed x hx)) (h.named y (hnamed y hy)) hxy

theorem Implements.singleAssignment {σ : Shared} {index : Nat} {types : List AbstractValue}
    {callee : Callee} (h : Implements program settings symbols σ index types callee) :
    callee.function.SingleAssignment := by
  cases h with
  | @intro _ _ _ _ _ t l _ _ _ _ _ _ _ f known trace inner translates
    function same member captured infos =>
    rw [captured] at function
    have hlocal := translates.localizes (captureFrom_of_inner inner) function
    obtain ⟨houtputs, hproduced⟩ := translates.outputs_spec
    have hmade : f.nodes.flatMap Node.outputs = (l.nodes.flatMap Node.outputs).map
        (l.localNames (l.referencedInitializers σ.table)).apply := by
      rw [hlocal.nodes, Level.flatMap_outputs_localized]
    rw [same]
    refine ⟨?_, hlocal.nodup_names, ?_, fun x hx => ?_⟩
    · rw [hlocal.inputs, hmade, ← List.map_append]
      exact hlocal.nodup_map translates.nodup_own fun x hx => List.mem_append_left _ hx
    · rw [hlocal.outputs]
      exact hlocal.nodup_map houtputs fun x hx => List.mem_append_right _ hx
    · have hx : x ∈ f.outputs := hx
      rw [hlocal.outputs] at hx
      obtain ⟨y, hy, rfl⟩ := List.mem_map.1 hx
      rw [hmade]
      exact List.mem_map_of_mem (hproduced y hy)

theorem count_nodeNames (nodes : List Node) (x : String) :
    (nodeNames nodes).count x = (nodes.flatMap Node.outputs).count x +
      (nodes.map Node.name).count x := by
  induction nodes with
  | nil => rfl
  | cons n rest ih =>
    rw [nodeNames] at ih ⊢
    simp only [List.flatMap_cons, List.map_cons, List.count_append, List.count_cons, ih]
    omega

/-- In a lowered model every name is defined once. -/
theorem singleAssignment_lowerProgram {entry : Callable} {inputs : List InputSpec}
    {options : ConversionOptions} {name : String} {m : Model} {s' : Lowering}
    (h : lowerProgram .builtin program entry inputs options (.start name) = .ok m s') :
    m.SingleAssignment := by
  obtain ⟨settings, t, counts, -, -, σ, l, names, info, body, tail, decls, hσ, htranslates, hm⟩ :=
    translates_lowerProgram h
  have hnames :
      (m.graph.inputNames ++ m.graph.initializerNames ++ m.graph.nodes.flatMap Node.outputs ++
        m.graph.nodes.map Node.name ++ m.functions.map Function.name).Nodup := by
    refine (List.perm_iff_count.2 fun x => ?_).nodup_iff.1 (distinct_lowerProgram h)
    simp only [List.count_append, count_nodeNames]
    omega
  have hown := htranslates.translation.own_nodup
  have hnew := htranslates.translation.own_new
  rw [← htranslates.nodes] at hown hnew
  refine ⟨hnames, ?_, fun x hx => ?_, fun f hf => ?_⟩
  · rw [hm.outputNames_eq]
    exact htranslates.outputs_spec.1
  · rw [hm.outputNames_eq] at hx
    rw [hm.nodes, hm.inputNames_eq, hm.initializerNames_eq]
    have hmade := htranslates.outputs_spec.2 x hx
    exact ⟨hmade, fun hinput => (List.nodup_append.1 hown).2.2 x hinput x hmade rfl,
      hnew x (List.mem_append_right _ hmade)⟩
  · rw [hm.functions] at hf
    obtain ⟨index, types, callee, hcallee, rfl⟩ := hσ.implemented f hf
    exact hcallee.singleAssignment

end

/-! ## Finished models -/

theorem Function.SingleAssignment.withoutDeadNodes {f : Function} (h : f.SingleAssignment) :
    f.withoutDeadNodes.SingleAssignment := by
  have hlive := liveNodes_sublist f.outputs f.nodes
  exact
    { names := h.names.sublist ((List.Sublist.refl _).append (hlive.flatMap Node.outputs))
      nodes := h.nodes.sublist (hlive.map Node.name)
      outputs := h.outputs
      produced := fun x hx => mem_outputs_liveNodes hx (h.produced x hx) }

namespace Model.SingleAssignment

variable {m : Model}

theorem prune (h : m.SingleAssignment) : m.prune.SingleAssignment where
  names := by
    have hconstants : m.prune.graph.initializerNames.Sublist m.graph.initializerNames :=
      List.filter_sublist.map _
    exact h.names.sublist
      (((((List.Sublist.refl _).append hconstants).append (.refl _)).append (.refl _)).append
        (.refl _))
  outputs := h.outputs
  produced x hx := by
    obtain ⟨hmade, hinput, hconstant⟩ := h.produced x hx
    exact ⟨hmade, hinput, fun hmem => hconstant (mem_initializerNames_prune.1 hmem).1⟩
  functions := h.functions

theorem withoutDeadNodes (h : m.SingleAssignment) : m.withoutDeadNodes.SingleAssignment where
  names := by
    have hlive := liveNodes_sublist m.graph.outputNames m.graph.nodes
    have hfunctions :
        (m.withoutDeadNodes.functions.map Function.name).Sublist
          (m.functions.map Function.name) := by
      have hnames : (m.functions.map Function.withoutDeadNodes).map Function.name =
          m.functions.map Function.name := by
        rw [List.map_map]
        rfl
      rw [← hnames]
      exact List.filter_sublist.map _
    exact h.names.sublist ((((List.Sublist.refl _).append (hlive.flatMap Node.outputs)).append
      (hlive.map Node.name)).append hfunctions)
  outputs := h.outputs
  produced x hx := by
    obtain ⟨hmade, hinput, hconstant⟩ := h.produced x hx
    exact ⟨mem_outputs_liveNodes hx hmade, hinput, hconstant⟩
  functions f hf := by
    obtain ⟨g, hg, rfl⟩ := List.mem_map.1 (List.mem_filter.1 hf).1
    exact (h.functions g hg).withoutDeadNodes

theorem finished (h : m.SingleAssignment) (optimizer : Optimizer) (options : ConversionOptions) :
    (m.finished optimizer options).SingleAssignment :=
  Model.finished_of_steps (fun _ h => prune h) (fun _ h => withoutDeadNodes h) h optimizer options

end Model.SingleAssignment

/-- Every conversion with the built-in primitives that succeeds returns a model where every name is
defined once. -/
theorem singleAssignment_of_convert {optimizer : Optimizer} {program : Program}
    {inputs : List InputSpec} {options : ConversionOptions} {m : Model}
    (h : (convert .builtin optimizer program inputs options).result = .ok m) :
    m.SingleAssignment := by
  obtain ⟨entry, -, lowered, _, hlowered, rfl⟩ := convert_eq_ok.1 h
  exact (singleAssignment_lowerProgram hlowered).finished optimizer options

namespace Example

/-- Holds a variable that it did not make, and binds a primitive to outputs of given types. -/
def shifted : Callable :=
  .fixed "shifted" none [.constant ⟨.f32, [], [0, 0, 0, 64]⟩, .foreign ⟨90, ⟨[.known 5], .f32⟩⟩,
    .bind "add" [.value 0, .value 1] [⟨[.symbolic 0, .known 2], .f32⟩] []] [.value 3]

/-- A call, and a result that is returned twice beside the argument. -/
def repeated : Callable :=
  .fixed "repeated" none
    [.call 0 [.value 0], .bind "pow" [.value 1, .value 0] [⟨[.known 7], .i32⟩] []]
    [.value 2, .value 0, .value 2]

end Example

/-- A program that binds given types and holds a foreign variable is converted to a model where
every name is defined once. -/
theorem singleAssignment_of_convert_repeated :
    ∃ m, (convert .builtin .deadNodeElimination [Example.shifted, Example.repeated]
      Example.inputs .default).result = .ok m ∧ m.SingleAssignment := by
  have hok : (convert .builtin .deadNodeElimination [Example.shifted, Example.repeated]
      Example.inputs .default).result.isOk = true := by decide +kernel
  cases h : (convert .builtin .deadNodeElimination [Example.shifted, Example.repeated]
      Example.inputs .default).result with
  | error e => simp [h, Except.isOk, Except.toBool] at hok
  | ok m => exact ⟨m, rfl, singleAssignment_of_convert h⟩

end TensorGraph
