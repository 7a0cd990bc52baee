import TensorGraph.Proofs.ConstantOrder
import TensorGraph.Proofs.LevelTypes

/-!
# Converted models are well typed

The nodes of a level that translates a typed trace are typed (`Level.Translates.typed`) : primitives
broadcast as the trace says, and the function that a call refers to takes and returns the types of
the call's operands and outputs (`Implements.types_inputs`, `Implements.types_outputs`). So are the
nodes of the level's function (`Implements.typed`). A conversion that succeeds returns a well-typed
model.

A callee is traced when its call is recorded and again when the call is lowered, and the two traces
may have outputs of different types. The call's outputs then have two records, the one taken over
from the function and the one of the call itself, and since neither is pinned the conversion ends
with a conflict unless they agree (`Var.Agrees`).
-/

namespace TensorGraph

theorem TypedFrom.of_mem {known : List (String × Tracer)} {vars : List Var} {es : List Equation}
    (h : TypedFrom known vars es) {e : Equation} (he : e ∈ es) :
    (∀ a ∈ e.inputs, a.IsOneOf (vars ++ es.flatMap Equation.outputs)) ∧ e.Typed known := by
  induction es generalizing vars with
  | nil => simp at he
  | cons e' rest ih =>
    rcases List.mem_cons.1 he with rfl | he
    · exact ⟨fun a ha => (h.1 a ha).mono (List.subset_append_left _ _), h.2.1⟩
    · simpa using ih h.2.2 he

theorem operation?_mem {primitive op : String} (h : operation? primitive = some op) :
    op ∈ ["Add", "Mul", "Pow"] := by
  unfold operation? at h
  split_ifs at h
  all_goals
    obtain rfl := Option.some.inj h
    simp

theorem isSome_of_map_eq {α β γ : Type} {f : α → Option γ} {g : β → Option γ} {xs : List α}
    {ys : List β} (h : xs.map f = ys.map g) (hg : ∀ y ∈ ys, (g y).isSome) :
    ∀ x ∈ xs, (f x).isSome := by
  intro x hx
  have hmem : f x ∈ ys.map g := h ▸ List.mem_map_of_mem hx
  obtain ⟨y, hy, heq⟩ := List.mem_map.1 hmem
  exact heq ▸ hg y hy

/-- An identity node of declared outputs passes on what an output stands for. -/
theorem Declares.exists_of_mem {table : InitializerTable} {names : Nat → Option String}
    {inputs declared : List String} {atoms : List Atom} {nodes : List Node}
    {decls : List Declaration} {R : Atom → Declaration → Prop}
    (h : Declares table names inputs declared atoms nodes decls) (hR : List.Forall₂ R atoms decls)
    {n : Node} (hn : n ∈ nodes) :
    ∃ a ∈ atoms, ∃ x d nodeName, R a d ∧ a.name? table names = some x ∧
      n = .plain "Identity" nodeName [x] [Declaration.name d] := by
  induction h with
  | nil => simp at hn
  | own source notInput notConstant notDeclared next ih =>
    cases hR with
    | cons _ hrest =>
      obtain ⟨a, ha, found⟩ := ih hrest hn
      exact ⟨a, List.mem_cons_of_mem _ ha, found⟩
  | @routed declared a x out nodeName rest nodes decls source aliased next ih =>
    cases hR with
    | cons hhead hrest =>
      rcases List.mem_cons.1 hn with rfl | hn
      · exact ⟨a, List.mem_cons_self, x, _, nodeName, hhead, source, rfl⟩
      · obtain ⟨b, hb, found⟩ := ih hrest hn
        exact ⟨b, List.mem_cons_of_mem _ hb, found⟩

section

variable {program : Program} {settings : Params} {symbols : SymbolTable} {targets : Targets}
  {σ : Shared} {names : Nat → Option String} {info : String → Option Info} {t : Trace} {l : Level}
  {body tail : List Node} {decls : List Declaration} {known : List (String × Tracer)}

theorem SymbolTable.isSome_renderType? {type : AbstractValue}
    (h : (symbols.renderShape? type).isSome) :
    (symbols.renderType? type).isSome := by
  rwa [renderType?, Option.isSome_map]

/-! ## Interfaces -/

namespace Level.Translates

/-- Names have the types of the operands that go by them. -/
theorem map_type?_of_map_name?
    (h : l.Translates program symbols targets σ names info t body tail decls) (hσ : σ.Tidy)
    (ht : t.Typed symbols known) (hrules : ObeyRules t.constants t.equations) {atoms : List Atom}
    {xs : List String} (hatoms : ∀ a ∈ atoms, a.IsOneOf t.vars)
    (hxs : atoms.map (Atom.name? σ.table names) = xs.map some) :
    xs.map (l.type? σ.table) = atoms.map fun a => symbols.renderType? a.type := by
  induction atoms generalizing xs with
  | nil =>
    obtain rfl : xs = [] := List.map_eq_nil_iff.1 hxs.symm
    rfl
  | cons a atoms ih =>
    cases xs with
    | nil => simp at hxs
    | cons x xs =>
      simp only [List.map_cons, List.cons.injEq] at hxs
      rw [List.forall_mem_cons] at hatoms
      rw [List.map_cons, List.map_cons, ih hatoms.2 hxs.2,
        h.type?_of_name? hσ.table_nodup ht.rendered hrules.constants hatoms.1 hxs.1]

/-- The same for variables. -/
theorem map_type?_of_map_names
    (h : l.Translates program symbols targets σ names info t body tail decls) (hσ : σ.Tidy)
    (ht : t.Typed symbols known) (hrules : ObeyRules t.constants t.equations) {vs : List Var}
    {xs : List String} (hvs : vs ⊆ t.vars) (hxs : vs.map (fun v => names v.id) = xs.map some) :
    xs.map (l.type? σ.table) = vs.map fun v => symbols.renderType? v.type := by
  have hatoms : ∀ a ∈ vs.map Atom.var, a.IsOneOf t.vars := fun a ha => by
    obtain ⟨v, hv, rfl⟩ := List.mem_map.1 ha
    exact hvs hv
  rw [h.map_type?_of_map_name? hσ ht hrules hatoms (by rw [List.map_map]; exact hxs), List.map_map]
  rfl

/-- The local names of typed names have their types. -/
theorem map_type?_toFunction
    (h : l.Translates program symbols targets σ names info t body tail decls)
    (htargets : targets.CaptureFrom σ.table) {name : String} {f : Function}
    (hf : l.toFunction name (l.referencedInitializers σ.table) σ.table = .ok f) {xs : List String}
    (hxs : xs ⊆ l.inputs ++ l.referencedInitializers σ.table ++ l.nodes.flatMap Node.outputs)
    (htyped : ∀ x ∈ xs, (l.type? σ.table x).isSome) :
    (xs.map (l.localNames (l.referencedInitializers σ.table)).apply).map f.type? =
      xs.map (l.type? σ.table) := by
  rw [List.map_map]
  exact List.map_congr_left fun x hx => h.type?_toFunction htargets hf (hxs hx) (htyped x hx)

/-- A constant has a type. -/
theorem isSome_type?_of_mem_names
    (h : l.Translates program symbols targets σ names info t body tail decls) {x : String}
    (hx : x ∈ σ.table.names) : (l.type? σ.table x).isSome := by
  rw [h.type?_of_mem_names hx, Option.isSome_map, Option.isSome_iff_ne_none, ne_eq,
    InitializerTable.get?_eq_none_iff]
  exact not_not.2 hx

end Level.Translates

namespace Implements

variable {index : Nat} {types : List AbstractValue} {callee : Callee}

theorem isSome_renderShape? (h : Implements program settings symbols σ index types callee) :
    ∀ type ∈ types, (symbols.renderShape? type).isSome := by
  cases h with
  | intro known trace inner translates function same member captured infos =>
    intro type htype
    have hinputs := (Callable.tracer_spec trace).1
    rw [← map_type_freshVars 0 types, ← hinputs] at htype
    obtain ⟨v, hv, rfl⟩ := List.mem_map.1 htype
    exact translates.translation.inputs_rendered v hv

/-- The trace that a function implements is typed and obeys the rules. -/
theorem typed_trace (harith : ∀ c ∈ program, c.IsArithmetic) {c : Callable}
    {counts counts' : Counts} (hc : program[index]? = some c)
    (htrace : c.tracer settings (Program.tracers settings (program.take index)) types counts =
      .ok (t, counts')) (htypes : ∀ type ∈ types, (symbols.renderShape? type).isSome) :
    t.Typed symbols (Program.tracers settings (program.take index)) ∧
      ObeyRules t.constants t.equations :=
  have hc := harith c (List.mem_of_getElem? hc)
  ⟨Callable.typed_tracer (Program.renders_tracers fun c hc => harith c (List.mem_of_mem_take hc)) hc
    htrace htypes, Callable.obeysRules_tracer hc htrace⟩

/-- A function takes arguments of the types that its callable was traced on, and constants of their
own types. -/
theorem types_inputs (h : Implements program settings symbols σ index types callee) (hσ : σ.Tidy)
    (harith : ∀ c ∈ program, c.IsArithmetic) : callee.function.inputs.map callee.function.type? =
      types.map symbols.renderType? ++ callee.captured.map fun x =>
        (σ.table.get? x).map Tensor.valueType := by
  have htypes := h.isSome_renderShape?
  cases h with
  | @intro _ _ _ c _ t l _ names _ _ _ _ _ f known trace inner translates
    function same member captured infos =>
    obtain ⟨ht, hrules⟩ := typed_trace harith known trace htypes
    have hinputs := translates.map_type?_of_map_names hσ ht hrules
      (fun v hv => List.mem_append_left _ (List.mem_append_left _ hv))
      translates.translation.inputs_eq
    have hrendered := isSome_of_map_eq hinputs fun v hv =>
      SymbolTable.isSome_renderType? (translates.translation.inputs_rendered v hv)
    have hdata :
        t.inputs.map (fun v => symbols.renderType? v.type) = types.map symbols.renderType? := by
      rw [(Callable.tracer_spec trace).1]
      exact (List.map_map ..).symm.trans
        (congrArg (List.map symbols.renderType?) (map_type_freshVars 0 types))
    have hconstant : ∀ x ∈ l.referencedInitializers σ.table, x ∈ σ.table.names := fun x hx =>
      (Level.mem_referencedInitializers.1 hx).2
    rw [captured] at function ⊢
    have hcapture := captureFrom_of_inner inner
    have hlocal := translates.localizes hcapture function
    have hfunction : callee.function.inputs.map callee.function.type? = f.inputs.map f.type? := by
      rw [same]; rfl
    rw [hfunction, hlocal.inputs,
      translates.map_type?_toFunction hcapture
      function (List.subset_append_left _ _)
      (List.forall_mem_append.2 ⟨hrendered,
        fun x hx => translates.isSome_type?_of_mem_names (hconstant x hx)⟩), List.map_append,
        hinputs, hdata]
    exact congrArg _ (List.map_congr_left fun x hx =>
      translates.type?_of_mem_names (hconstant x hx))

/-- A function returns values of the types that the records of its outputs say. -/
theorem types_outputs (h : Implements program settings symbols σ index types callee)
    (harith : ∀ c ∈ program, c.IsArithmetic) :
    callee.function.outputs.map callee.function.type? = callee.infos.map (Option.map Info.type) ∧
      ∀ i ∈ callee.infos, i.isSome := by
  have htypes := h.isSome_renderShape?
  cases h with
  | @intro _ _ _ c _ t l _ names _ _ _ _ _ f known trace inner translates
    function same member captured infos =>
    obtain ⟨ht, -⟩ := typed_trace harith known trace htypes
    have hinfos : ∀ x ∈ l.outputs, ∃ i, l.info? x = some i := fun x hx => by
      have hstated := translates.infos_of_typed ht.outputs ht.rendered
      obtain ⟨a, -, i, hi, -⟩ := mem_of_forall₂ hstated (List.mem_map_of_mem hx)
      exact ⟨i, hi⟩
    have houtputs :
        l.outputs.map (l.type? σ.table) = (l.outputs.map l.info?).map (Option.map Info.type) := by
      rw [List.map_map]
      refine List.map_congr_left fun x hx => ?_
      obtain ⟨i, hi⟩ := hinfos x hx
      simp [Level.type?, hi]
    rw [captured] at function
    have hcapture := captureFrom_of_inner inner
    have hlocal := translates.localizes hcapture function
    have hfunction : callee.function.outputs.map callee.function.type? = f.outputs.map f.type? := by
      rw [same]; rfl
    rw [infos]
    constructor
    · rw [hfunction, hlocal.outputs, translates.map_type?_toFunction hcapture function
        (fun x hx => List.mem_append_right _ (translates.outputs_spec.2 x hx)) (fun x hx => ?_),
        houtputs]
      obtain ⟨i, hi⟩ := hinfos x hx
      simp [Level.type?, hi]
    · intro i hi
      obtain ⟨x, hx, rfl⟩ := List.mem_map.1 hi
      obtain ⟨i, hi⟩ := hinfos x hx
      simp [hi]

end Implements

/-- Records that agree with the types of outputs say these types. -/
theorem map_type_of_agrees {vs : List Var} {infos : List (Option Info)}
    (h : List.Forall₂ (Var.Agrees symbols) vs (infos.map (Option.map Info.adopted)))
    (hvs : ∀ v ∈ vs, (symbols.renderShape? v.type).isSome) (hinfos : ∀ i ∈ infos, i.isSome) :
    vs.map (fun v => symbols.renderType? v.type) = infos.map (Option.map Info.type) := by
  rw [List.forall₂_map_right_iff] at h
  rw [← List.forall₂_eq_eq_eq, List.forall₂_map_left_iff, List.forall₂_map_right_iff]
  refine List.forall₂_iff_zip.2 ⟨h.length_eq, fun {v i} hmem => ?_⟩
  obtain ⟨hv, hi⟩ := List.of_mem_zip hmem
  obtain ⟨j, rfl⟩ := Option.isSome_iff_exists.1 (hinfos i hi)
  have hstated := (List.forall₂_iff_zip.1 h).2 hmem (hvs v hv) j.adopted rfl
  rw [hstated.renderType?_eq]
  rfl

/-! ## Nodes of levels -/

namespace Level.Translates

/-- The node of a primitive broadcasts its operands. -/
theorem typed_primitive (h : l.Translates program symbols targets σ names info t body tail decls)
    (hσ : σ.Tidy) (ht : t.Typed symbols known) (hrules : ObeyRules t.constants t.equations)
    {e : Equation} (he : e ∈ t.equations) (callee : e.callee? = none) {a b : Atom} {v : Var}
    {op x y z : String} (operation : operation? e.primitive = some op) (inputs : e.inputs = [a, b])
    (outputs : e.outputs = [v]) (lhs : a.name? σ.table names = some x)
    (rhs : b.name? σ.table names = some y) (out : names v.id = some z) (nodeName : String) :
    (Node.plain op nodeName [x, y] [z]).Typed σ.functions (l.type? σ.table) := by
  obtain ⟨a', b', v', shape, hin, hout, hbroadcast, htype⟩ := hrules.primitives e he callee
  obtain ⟨rfl, rfl⟩ : a = a' ∧ b = b' := by simpa [inputs] using hin
  obtain rfl : v = v' := by simpa [outputs] using hout
  have hoperands := (ht.equations.of_mem he).1
  rw [inputs, List.forall_mem_cons, List.forall_mem_singleton] at hoperands
  obtain ⟨ha, hb⟩ := hoperands
  have hv : v ∈ t.vars := List.mem_append_right _ (List.mem_flatMap.2 ⟨e, he, by simp [outputs]⟩)
  obtain ⟨xs, hxs⟩ := Option.isSome_iff_exists.1 (ha.isSome_renderShape? ht.rendered)
  obtain ⟨ys, hys⟩ := Option.isSome_iff_exists.1 (hb.isSome_renderShape? ht.rendered)
  obtain ⟨zs, hzs⟩ := Option.isSome_iff_exists.1 (ht.rendered v hv)
  have htyped : ∀ {a : Atom} {x : String}, a.IsOneOf t.vars → a.name? σ.table names = some x →
      l.type? σ.table x = symbols.renderType? a.type := fun ha hx =>
    h.type?_of_name? hσ.table_nodup ht.rendered hrules.constants ha hx
  refine .arithmetic (a := ⟨xs, a.type.dtype⟩) (b := ⟨ys, b.type.dtype⟩) (operation?_mem operation)
    rfl rfl rfl ?_ ?_ ?_ (broadcastsTo_of_broadcast? (by rw [htype]; exact hbroadcast) hxs hys hzs)
  · rw [htyped ha lhs, SymbolTable.renderType?, hxs, Option.map_some]
  · rw [htyped hb rhs, SymbolTable.renderType?, hys, Option.map_some]
  · rw [htyped (a := .var v) hv out, Atom.type, SymbolTable.renderType?, hzs, htype,
      Option.map_some]

/-- The node of a call passes and gets back what the function takes and returns. -/
theorem typed_call (h : l.Translates program symbols targets σ names info t body tail decls)
    (hσ : σ.Tidy) (harith : ∀ c ∈ program, c.IsArithmetic) (ht : t.Typed symbols known)
    (hrules : ObeyRules t.constants t.equations) {e : Equation} (he : e ∈ t.equations) {index : Nat}
    {c : Callable} {callee : Callee}
    (hcallee : Implements program settings symbols σ index (e.inputs.map Atom.type) callee)
    {data outs : List String} (inputs : e.inputs.map (Atom.name? σ.table names) = data.map some)
    (outputs : e.outputs.map (fun v => names v.id) = outs.map some)
    (agrees :
      List.Forall₂ (Var.Agrees symbols) e.outputs (callee.infos.map (Option.map Info.adopted)))
    (nodeName : String) :
    (c.node callee.function.name nodeName (data ++ callee.captured) outs).Typed σ.functions
      (l.type? σ.table) := by
  have hoperands := (ht.equations.of_mem he).1
  have hvars : e.outputs ⊆ t.vars :=
    fun v hv => List.mem_append_right _ (List.mem_flatMap.2 ⟨e, he, hv⟩)
  have hconstant : ∀ x ∈ callee.captured, x ∈ σ.table.names := Implements.captureFrom _ _ _ hcallee
  have hdata := h.map_type?_of_map_name? hσ ht hrules hoperands inputs
  have houts := h.map_type?_of_map_names hσ ht hrules hvars outputs
  refine .call (by simp [Callable.node, Node.isCall])
    (findFunction?_of_mem hσ.functions_nodup hcallee.member) ?_ ?_ ?_
  · refine List.forall_mem_append.2 ⟨List.forall_mem_append.2 ⟨?_, fun x hx => ?_⟩, ?_⟩
    · exact isSome_of_map_eq hdata fun a ha =>
        SymbolTable.isSome_renderType? ((hoperands a ha).isSome_renderShape? ht.rendered)
    · exact h.isSome_type?_of_mem_names (hconstant x hx)
    · exact isSome_of_map_eq houts fun v hv =>
        SymbolTable.isSome_renderType? (ht.rendered v (hvars hv))
  · rw [hcallee.types_inputs hσ harith, List.map_map]
    refine List.map_append.trans (congrArg₂ (· ++ ·) hdata ?_)
    exact List.map_congr_left fun x hx => h.type?_of_mem_names (hconstant x hx)
  · obtain ⟨htypes, hinfos⟩ := hcallee.types_outputs harith
    rw [htypes]
    exact houts.trans (map_type_of_agrees agrees (fun v hv => ht.rendered v (hvars hv)) hinfos)

/-- The identity node of an output is typed. -/
theorem typed_identity (h : l.Translates program symbols targets σ names info t body tail decls)
    (hσ : σ.Tidy) (ht : t.Typed symbols known) (hrules : ObeyRules t.constants t.equations)
    {n : Node} (hn : n ∈ tail) :
    n.Typed σ.functions (l.type? σ.table) := by
  have hstated := h.infos_of_typed ht.outputs ht.rendered
  rw [h.outputs, List.forall₂_map_right_iff, List.forall₂_map_right_iff] at hstated
  obtain ⟨a, ha, x, d, nodeName, ⟨i, hi, hstated⟩, hx, rfl⟩ :=
    h.translation.declares.exists_of_mem hstated hn
  refine .identity (a := i.type) rfl rfl rfl rfl ?_ ?_
  · rw [h.type?_of_name? hσ.table_nodup ht.rendered hrules.constants (ht.outputs a ha) hx,
      hstated.renderType?_eq]
  · rw [type?, hi]

/-- The nodes of a level that translates a typed trace are typed. -/
theorem typed (h : l.Translates program symbols targets σ names info t body tail decls)
    (inner : ∀ i ts g, targets i ts g → Implements program settings symbols σ i ts g) (hσ : σ.Tidy)
    (harith : ∀ c ∈ program, c.IsArithmetic) (ht : t.Typed symbols known)
    (hrules : ObeyRules t.constants t.equations) :
    ∀ n ∈ l.nodes, n.Typed σ.functions (l.type? σ.table) := by
  intro n hn
  rw [h.nodes] at hn
  rcases List.mem_append.1 hn with hn | hn
  · obtain ⟨e, he, placed, hemits, hagrees, -⟩ := mem_of_forall₂ h.translation.emits hn
    cases hemits with
    | primitive callee operation inputs outputs lhs rhs out =>
      exact h.typed_primitive hσ ht hrules he callee operation inputs outputs lhs rhs out _
    | call calls known inputs outputs target count =>
      exact h.typed_call hσ harith ht hrules he (inner _ _ _ target) inputs outputs hagrees _
  · exact h.typed_identity hσ ht hrules hn

end Level.Translates

/-! ## Converted models -/

/-- The nodes of a function that implements an arithmetic callable are typed. -/
theorem Implements.typed {index : Nat} {types : List AbstractValue} {callee : Callee}
    (h : Implements program settings symbols σ index types callee) (hσ : σ.Tidy)
    (harith : ∀ c ∈ program, c.IsArithmetic) :
    ∀ n ∈ callee.function.nodes, n.Typed σ.functions callee.function.type? := by
  have htypes := h.isSome_renderShape?
  cases h with
  | @intro _ _ _ c _ t l _ _ _ _ _ _ _ f known trace inner translates
    function same member captured infos =>
    obtain ⟨ht, hrules⟩ := typed_trace harith known trace htypes
    have hnodes := translates.typed inner hσ harith ht hrules
    rw [captured] at function
    have hcapture := captureFrom_of_inner inner
    suffices hf : ∀ n ∈ f.nodes, n.Typed σ.functions f.type? by
      rw [same]
      exact hf
    intro n hn
    obtain ⟨k, hk, i, rfl⟩ := (translates.localizes hcapture function).mem_nodes hn
    refine (hnodes k hk).rename rfl rfl rfl rfl (fun x hx => ?_) fun _ g hg => ⟨g, hg, rfl, rfl⟩
    refine translates.type?_toFunction hcapture function ?_ ((hnodes k hk).isSome x hx)
    rcases List.mem_append.1 hx with hx | hx
    · exact (translates.readsFrom_captured hcapture).mem_of_mem_inputs hk hx
    · exact List.mem_append_right _ (List.mem_flatMap.2 ⟨k, hk, hx⟩)

namespace Model.Translates

variable {m : Model}

/-- In a lowered model constants have no records, and nodes do not make them. -/
theorem constantsApart (h : m.Translates program settings symbols t) : m.ConstantsApart := by
  obtain ⟨σ, l, names, info, body, tail, decls, hσ, htranslates, hm⟩ := h
  refine ⟨fun x hx => ?_, fun x hx hmade => ?_⟩
  · rw [hm.initializerNames_eq] at hx
    have hnone := htranslates.info?_eq_none_of_mem_names hx
    rwa [Level.info?, Option.map_eq_none_iff, ← hm.record?_eq] at hnone
  · rw [hm.initializerNames_eq] at hx
    rw [hm.nodes, htranslates.nodes] at hmade
    exact htranslates.translation.own_new x (List.mem_append_right _ hmade) hx

/-- A lowered model is well typed, where the trace of the entry is typed. -/
theorem wellTyped (h : m.Translates program settings symbols t)
    (harith : ∀ c ∈ program, c.IsArithmetic) (ht : t.Typed symbols (program.tracers settings))
    (hrules : ObeyRules t.constants t.equations) : m.WellTyped := by
  obtain ⟨σ, l, names, info, body, tail, decls, hσ, htranslates, hm⟩ := h
  refine ⟨fun n hn => ?_, fun f hf n hn => ?_⟩
  · rw [hm.nodes] at hn
    rw [hm.functions, hm.type?_eq]
    exact htranslates.typed (fun _ _ _ => id) hσ.toTidy harith ht hrules n hn
  · rw [hm.functions] at hf ⊢
    obtain ⟨index, types, callee, hcallee, rfl⟩ := hσ.implemented f hf
    exact hcallee.typed hσ.toTidy harith n hn

end Model.Translates

end

/-- Every conversion of a program that is made of constants, literals, the arithmetic primitives and
calls returns, if it succeeds, a well-typed model. The callables may take other steps each time they
are traced. -/
theorem wellTyped_of_convert {optimizer : Optimizer} {program : Program} {inputs : List InputSpec}
    {options : ConversionOptions} {m : Model} (harith : ∀ c ∈ program, c.IsArithmetic)
    (h : (convert .builtin optimizer program inputs options).result = .ok m) : m.WellTyped := by
  obtain ⟨entry, settings, t, counts, lowered, hentry, -, htrace, htranslates, rfl⟩ :=
    translates_of_convert h
  have hbefore : ∀ c ∈ program.dropLast, c.IsArithmetic := fun c hc =>
    harith c ((List.dropLast_sublist program).subset hc)
  have harithEntry := harith entry (List.mem_of_getLast? hentry)
  have ht := Callable.typed_tracer (Program.renders_tracers hbefore) harithEntry htrace
    (InputSpec.isSome_renderShape?_abstractAll inputs)
  have hlowered := htranslates.wellTyped hbefore ht (Callable.obeysRules_tracer harithEntry htrace)
  exact hlowered.finished htranslates.proper htranslates.constantsApart optimizer options

namespace Example

/-- Adds its argument to itself in every third run, and multiplies it by itself in the others. -/
def varying : Callable where
  name := "varying"
  arity := none
  body _ run := [.elementwise (if run % 3 = 0 then "add" else "mul") (.value 0) (.value 0)]
  results _ _ := [.value 1]

/-- Calls the varying callable twice. What is recorded for the first call is a product, and what is
lowered is a sum. -/
def twice : Callable :=
  .fixed "twice" none [.call 0 [.value 0], .call 0 [.value 1]] [.value 2]

end Example

/-- A program whose steps vary is converted to a well-typed model, with two functions for two calls
of one callable. -/
theorem wellTyped_of_convert_twice : (∀ c ∈ [Example.varying, Example.twice], c.IsArithmetic) ∧
    ∃ m, (convert .builtin .deadNodeElimination [Example.varying, Example.twice] Example.inputs
      .default).result = .ok m ∧ m.functions.map Function.name = ["varying_fn", "varying_fn_2"] ∧
      m.WellTyped := by
  have harith : ∀ c ∈ [Example.varying, Example.twice], c.IsArithmetic := by
    refine List.forall_mem_cons.2 ⟨fun types run => ?_, List.forall_mem_singleton.2 ?_⟩
    · by_cases h : run % 3 = 0 <;> simp [Example.varying, Statement.isArithmetic, operation?, h]
    · simp [Example.twice, Statement.isArithmetic]
  have heval :
      (convert .builtin .deadNodeElimination
        [Example.varying, Example.twice] Example.inputs .default).result.toOption.map
        (fun m => m.functions.map Function.name) = some ["varying_fn", "varying_fn_2"] := by
    -- The kernel evaluates a sort by insertion, but no merging.
    unfold convert lowerProgram callLowerings lowerCall
    simp only [Level.toFunction, referencedInitializers_eq_insertionSort,
      mergeSort_eq_insertionSort_records]
    decide +kernel
  obtain ⟨m, hm, hfunctions⟩ := Option.map_eq_some_iff.1 heval
  have h := eq_ok_of_toOption hm
  exact ⟨harith, m, h, hfunctions, wellTyped_of_convert harith h⟩

end TensorGraph
