import TensorGraph.Proofs.TypedTraces

/-!
# Variables that callables hold

A callable reads variables that it holds : its arguments, what its statements make, and foreign
ones, which were made elsewhere. So every operand and every result of a trace is a literal, a
variable of the trace or a foreign one (`Callable.usesHeld_tracer`). Nothing is said of the types of
foreign variables, nor of whether the trace has their numbers.
-/

namespace TensorGraph

/-- The variable that a statement holds without making it. -/
def Statement.foreign? : Statement → Option Var
  | .foreign v => some v
  | _ => none

/-- The variables that a callable holds without making them, in a run on arguments of given
types. -/
def Callable.foreignVars (c : Callable) (types : List AbstractValue) (run : Nat) : List Var :=
  (c.body types run).filterMap Statement.foreign?

/-- Every equation reads only the given variables, those of the equations before it and foreign
ones. -/
def ReadsHeld (foreign vars : List Var) : List Equation → Prop
  | [] => True
  | e :: rest =>
    (∀ a ∈ e.inputs, a.IsOneOf (vars ++ foreign)) ∧ ReadsHeld foreign (vars ++ e.outputs) rest

/-- The operands and the results of a trace are its own variables or foreign ones. -/
structure Trace.UsesHeld (foreign : List Var) (t : Trace) : Prop where
  equations : ReadsHeld foreign (t.inputs ++ t.constants.map Prod.fst) t.equations
  outputs : ∀ a ∈ t.outputs, a.IsOneOf (t.vars ++ foreign)

section

variable {foreign vars vars' : List Var}

theorem ReadsHeld.mono (h : vars ⊆ vars') {es : List Equation} (hes : ReadsHeld foreign vars es) :
    ReadsHeld foreign vars' es := by
  induction es generalizing vars vars' with
  | nil => trivial
  | cons e rest ih =>
    have hforeign : vars ++ foreign ⊆ vars' ++ foreign :=
      List.append_subset.2 ⟨List.subset_append_of_subset_left _ h, List.subset_append_right _ _⟩
    refine ⟨fun a ha => (hes.1 a ha).mono hforeign, ih ?_ hes.2⟩
    exact List.append_subset.2 ⟨List.subset_append_of_subset_left _ h, List.subset_append_right _ _⟩

theorem ReadsHeld.append_singleton {es : List Equation} {e : Equation}
    (hes : ReadsHeld foreign vars es)
    (hinputs : ∀ a ∈ e.inputs, a.IsOneOf (vars ++ es.flatMap Equation.outputs ++ foreign)) :
    ReadsHeld foreign vars (es ++ [e]) := by
  induction es generalizing vars with
  | nil => exact ⟨by simpa using hinputs, trivial⟩
  | cons e' rest ih => exact ⟨hes.1, ih hes.2 (by simpa using hinputs)⟩

theorem isOneOf_of_operands {settings : Params} {values : List Var} {os : List Operand}
    {atoms : List Atom} (h : os.map (Operand.atom? settings values) = atoms.map some) :
    ∀ a ∈ atoms, a.IsOneOf values := fun a ha => by
  have : some a ∈ os.map (Operand.atom? settings values) := h ▸ List.mem_map_of_mem ha
  obtain ⟨o, -, ho⟩ := List.mem_map.1 this
  exact Operand.isOneOf_of_atom? ho

end

/-! ## Recordings -/

/-- What is held so far was made here or is foreign, and so is what was read. -/
structure Recording.Holds (foreign inputs : List Var) (r : Recording) : Prop where
  values : r.values ⊆ r.vars inputs ++ foreign
  equations : ReadsHeld foreign (inputs ++ r.constants.map Prod.fst) r.equations

namespace Recording.Holds

variable {foreign inputs : List Var} {r r' : Recording} {settings : Params}
  {known : List (String × Tracer)}

theorem addConstant (h : r.Holds foreign inputs) (t : Tensor) :
    ((r.addConstant t).holdAll [r.constantVar t]).Holds foreign inputs := by
  refine ⟨fun v hv => ?_, h.equations.mono ?_⟩
  · simp only [vars, holdAll, Recording.addConstant, List.map_append, List.map_cons, List.map_nil,
      List.mem_append, List.mem_singleton] at hv ⊢
    rcases hv with hv | rfl
    · have := h.values hv
      simp only [vars, List.mem_append] at this
      tauto
    · simp
  · simp [holdAll, Recording.addConstant]

theorem addEquation (h : r.Holds foreign inputs) {primitive : String} {atoms : List Atom}
    {types : List AbstractValue} {params : Params} (hatoms : ∀ a ∈ atoms, a.IsOneOf r.values) :
    ((r.addEquation primitive atoms types params).holdAll (freshVars r.nextVar types)).Holds foreign
      inputs := by
  refine ⟨fun v hv => ?_, h.equations.append_singleton fun a ha => (hatoms a ha).mono h.values⟩
  simp only [vars, holdAll, Recording.addEquation, List.flatMap_append, List.flatMap_cons,
    List.flatMap_nil, List.append_nil, List.mem_append] at hv ⊢
  rcases hv with hv | hv
  · have := h.values hv
    simp only [vars, List.mem_append] at this
    tauto
  · simp [hv]

/-- A statement makes variables here, or holds a foreign one. -/
theorem of_makes {st : Statement} {made : List Var}
    (hmakes : Recorder.Makes settings known r st made r')
    (hforeign : ∀ v, st.foreign? = some v → v ∈ foreign) (h : r.Holds foreign inputs) :
    (r'.holdAll made).Holds foreign inputs := by
  cases hmakes with
  | constant value => exact h.addConstant value
  | draw dtype dims bytes =>
    exact addConstant (r := { r with counts := r.counts.draw }) ⟨h.values, h.equations⟩ _
  | elementwise primitive left right fits =>
    exact h.addEquation (by simp [Operand.isOneOf_of_atom? left, Operand.isOneOf_of_atom? right])
  | bind primitive types params operands => exact h.addEquation (isOneOf_of_operands operands)
  | @call index counts args atoms name tracer inner operands callee trace =>
    exact addEquation (r := { r with counts })
      ⟨h.values, h.equations⟩ (isOneOf_of_operands operands)
  | foreign v =>
    refine ⟨List.append_subset.2 ⟨h.values, ?_⟩, h.equations⟩
    simp [hforeign v rfl]

end Recording.Holds

/-- The operands and the results of a callable's trace are variables of the trace or foreign
ones. -/
theorem Callable.usesHeld_tracer {settings : Params} {known : List (String × Tracer)} {c : Callable}
    {types : List AbstractValue} {counts counts' : Counts} {t : Trace}
    (h : c.tracer settings known types counts = .ok (t, counts')) :
    t.UsesHeld (c.foreignVars types counts.runs) := by
  obtain ⟨-, r, hbody, hresults, -, hinputs, hconstants, hequations, -⟩ := tracer_eq_ok.1 h
  have hr : r.Holds (c.foreignVars types counts.runs) (freshVars 0 types) :=
    Recorder.statements_invariant
      (P := Recording.Holds (c.foreignVars types counts.runs) (freshVars 0 types))
    (fun st hst _ _ _ hmakes => .of_makes hmakes fun v hv => List.mem_filterMap.2
      ⟨st, hst, hv⟩) hbody ⟨by simp [Recording.start, Recording.vars], trivial⟩
  have hvars : t.vars = r.vars (freshVars 0 types) := by
    rw [Trace.vars, Recording.vars, hinputs, hconstants, hequations]
  refine ⟨by rw [hinputs, hconstants, hequations]; exact hr.equations, fun a ha => ?_⟩
  rw [hvars]
  exact (isOneOf_of_operands hresults a ha).mono hr.values

end TensorGraph
