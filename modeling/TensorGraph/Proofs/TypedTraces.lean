import TensorGraph.Proofs.NumberedSymbols
import TensorGraph.Proofs.ProgramEvaluation

/-!
# Types in traces

A variable has the type that it was made with wherever a trace reads it, and the type of an
operation's output is made of the dimensions of its operands. So a trace of a callable that is made
of constants, literals, the arithmetic primitives and calls is typed (`Callable.typed_tracer`),
where the shapes of its inputs can be rendered : every operand is a literal or a variable that was
made before, and the shapes of all variables can be rendered.
-/

namespace TensorGraph

/-! ## Shapes that can be rendered -/

section Rendered

variable {symbols : SymbolTable}

theorem Dim.eq_or_eq_of_join? {a b d : Dim} (h : join? a b = some d) : d = a ∨ d = b := by
  unfold join? at h
  split_ifs at h
  · exact Or.inl (Option.some.inj h).symm
  · exact Or.inr (Option.some.inj h).symm
  · exact Or.inl (Option.some.inj h).symm

theorem mem_of_broadcastBack? {lhs rhs back : List Dim} (h : broadcastBack? lhs rhs = some back)
    {d : Dim} (hd : d ∈ back) : d ∈ lhs ∨ d ∈ rhs := by
  fun_induction broadcastBack? lhs rhs generalizing back with
  | case1 back' => exact Or.inr (Option.some.inj h ▸ hd)
  | case2 back' => exact Or.inl (Option.some.inj h ▸ hd)
  | case3 a lhs b rhs joined rest hrest hjoined ih =>
    obtain rfl := Option.some.inj h
    rcases List.mem_cons.1 hd with rfl | hd
    · exact (Dim.eq_or_eq_of_join? hjoined).imp (fun hda => by simp [hda]) fun hdb => by simp [hdb]
    · exact (ih hrest hd).imp (List.mem_cons_of_mem a) (List.mem_cons_of_mem b)
  | case4 => simp at h

/-- A broadcast shape has no dimensions of its own. -/
theorem mem_of_broadcast? {lhs rhs shape : List Dim} (h : broadcast? lhs rhs = some shape) {d : Dim}
    (hd : d ∈ shape) :
    d ∈ lhs ∨ d ∈ rhs := by
  obtain ⟨back, hback, rfl⟩ := Option.map_eq_some_iff.1 h
  simpa using mem_of_broadcastBack? hback (List.mem_reverse.1 hd)

theorem Tensor.isSome_renderShape?_type (t : Tensor) : (symbols.renderShape? t.type).isSome :=
  SymbolTable.isSome_renderShape?_iff.2 fun d hd => by
    obtain ⟨n, -, rfl⟩ := List.mem_map.1 hd
    rfl

end Rendered

/-! ## Typed traces -/

/-- Is the operand a literal or one of the given variables, with its type? -/
def Atom.IsOneOf (vars : List Var) : Atom → Prop
  | .var v => v ∈ vars
  | .literal _ => True

/-- An equation applies an arithmetic primitive to two operands, or it calls a callable and has
outputs of the types that the callee's trace has. -/
inductive Equation.Typed (known : List (String × Tracer)) : Equation → Prop where
  | primitive {e : Equation} {a b : Atom} {v : Var} (callee : e.callee? = none)
      (operation : (operation? e.primitive).isSome) (inputs : e.inputs = [a, b])
      (outputs : e.outputs = [v]) : Typed known e
  | call {e : Equation} {index : Nat} {counts counts' : Counts} {name : String} {tracer : Tracer}
      {inner : Trace} (callee : e.callee? = some index)
      (target : known[index]? = some (name, tracer))
      (trace : tracer (e.inputs.map Atom.type) counts = .ok (inner, counts'))
      (outputs : e.outputs.map Var.type = inner.outputs.map Atom.type) : Typed known e

/-- Equations are typed and read only the given variables and those of the equations before them. -/
def TypedFrom (known : List (String × Tracer)) (vars : List Var) : List Equation → Prop
  | [] => True
  | e :: rest =>
    (∀ a ∈ e.inputs, a.IsOneOf vars) ∧ e.Typed known ∧ TypedFrom known (vars ++ e.outputs) rest

/-- The variables of a trace. -/
def Trace.vars (t : Trace) : List Var :=
  t.inputs ++ t.constants.map Prod.fst ++ t.equations.flatMap Equation.outputs

/-- Equations are typed, and the shapes of all variables can be rendered. -/
structure Trace.Typed (symbols : SymbolTable) (known : List (String × Tracer)) (t : Trace) :
    Prop where
  equations : TypedFrom known (t.inputs ++ t.constants.map Prod.fst) t.equations
  outputs : ∀ a ∈ t.outputs, a.IsOneOf t.vars
  rendered : ∀ v ∈ t.vars, (symbols.renderShape? v.type).isSome

section Operands

variable {settings : Params} {symbols : SymbolTable} {known : List (String × Tracer)}
  {vars vars' : List Var}

theorem Atom.IsOneOf.mono (h : vars ⊆ vars') {a : Atom} (ha : a.IsOneOf vars) :
    a.IsOneOf vars' := by
  cases a with
  | var v => exact h ha
  | literal t => trivial

theorem Atom.IsOneOf.isSome_renderShape? (h : ∀ v ∈ vars, (symbols.renderShape? v.type).isSome)
    {a : Atom} (ha : a.IsOneOf vars) : (symbols.renderShape? a.type).isSome := by
  cases a with
  | var v => exact h v ha
  | literal t => exact t.isSome_renderShape?_type

theorem Operand.isOneOf_of_atom? {o : Operand} {a : Atom} (h : o.atom? settings vars = some a) :
    a.IsOneOf vars := by
  cases o with
  | value index =>
    obtain ⟨v, hv, rfl⟩ := Option.map_eq_some_iff.1 h
    exact List.mem_of_getElem? hv
  | literalLike index x =>
    obtain ⟨v, -, rfl⟩ := Option.map_eq_some_iff.1 h
    trivial
  | literal dtype x => exact Option.some.inj h ▸ trivial
  | tensor t => exact Option.some.inj h ▸ trivial
  | param dtype key => exact Option.some.inj h ▸ trivial

theorem TypedFrom.mono (h : vars ⊆ vars') {es : List Equation} (hes : TypedFrom known vars es) :
    TypedFrom known vars' es := by
  induction es generalizing vars vars' with
  | nil => trivial
  | cons e rest ih =>
    refine ⟨fun a ha => (hes.1 a ha).mono h, hes.2.1, ih ?_ hes.2.2⟩
    exact List.append_subset.2 ⟨List.subset_append_of_subset_left _ h, List.subset_append_right _ _⟩

theorem TypedFrom.append_singleton {es : List Equation} {e : Equation}
    (hes : TypedFrom known vars es)
    (hinputs : ∀ a ∈ e.inputs, a.IsOneOf (vars ++ es.flatMap Equation.outputs))
    (he : e.Typed known) :
    TypedFrom known vars (es ++ [e]) := by
  induction es generalizing vars with
  | nil => exact ⟨by simpa using hinputs, he, trivial⟩
  | cons e' rest ih => exact ⟨hes.1, hes.2.1, ih hes.2.2 (by simpa using hinputs)⟩

end Operands

/-! ## Typed recordings -/

section Typed

variable {settings : Params} {symbols : SymbolTable} {known : List (String × Tracer)}

/-- Wherever the shapes of arguments can be rendered, those of the outputs can. -/
def Tracer.Renders (symbols : SymbolTable) (tracer : Tracer) : Prop :=
  ∀ ⦃types counts t counts'⦄, tracer types counts = .ok (t, counts') →
    (∀ type ∈ types, (symbols.renderShape? type).isSome) → ∀ a ∈ t.outputs,
    (symbols.renderShape? a.type).isSome

/-- The variables that a recording has made. -/
def Recording.vars (inputs : List Var) (r : Recording) : List Var :=
  inputs ++ r.constants.map Prod.fst ++ r.equations.flatMap Equation.outputs

/-- What is recorded so far is typed. -/
structure Recording.Typed (symbols : SymbolTable) (known : List (String × Tracer))
    (inputs : List Var) (r : Recording) : Prop where
  values : r.values ⊆ r.vars inputs
  equations : TypedFrom known (inputs ++ r.constants.map Prod.fst) r.equations
  rendered : ∀ v ∈ r.vars inputs, (symbols.renderShape? v.type).isSome

namespace Recording.Typed

variable {inputs : List Var} {r r' : Recording}

theorem addConstant (h : r.Typed symbols known inputs) (t : Tensor) :
    ((r.addConstant t).holdAll [r.constantVar t]).Typed symbols known inputs := by
  have hvars : ∀ v, v ∈ ((r.addConstant t).holdAll [r.constantVar t]).vars inputs ↔
      v ∈ r.vars inputs ∨ v = r.constantVar t := by
    intro v
    simp only [vars, holdAll, Recording.addConstant, List.map_append, List.mem_append,
      List.map_cons, List.map_nil, List.mem_singleton]
    tauto
  refine ⟨fun v hv => ?_, ?_, fun v hv => ?_⟩
  · rw [hvars]
    exact (List.mem_append.1 hv).imp (fun hv => h.values hv) List.mem_singleton.1
  · refine h.equations.mono ?_
    simp [holdAll, Recording.addConstant]
  · rcases (hvars v).1 hv with hv | rfl
    · exact h.rendered v hv
    · exact t.isSome_renderShape?_type

theorem addEquation (h : r.Typed symbols known inputs) {primitive : String} {atoms : List Atom}
    {types : List AbstractValue} {params : Params} (hatoms : ∀ a ∈ atoms, a.IsOneOf r.values)
    (htyped : Equation.Typed known ⟨primitive, atoms, freshVars r.nextVar types, params⟩)
    (htypes : ∀ type ∈ types, (symbols.renderShape? type).isSome) :
    ((r.addEquation primitive atoms types params).holdAll (freshVars r.nextVar types)).Typed symbols
      known inputs := by
  have hvars :
      ((r.addEquation primitive atoms types params).holdAll (freshVars r.nextVar types)).vars
        inputs = r.vars inputs ++ freshVars r.nextVar types := by
    simp [vars, holdAll, Recording.addEquation]
  refine ⟨?_, ?_, fun v hv => ?_⟩
  · rw [hvars]
    exact List.append_subset.2 ⟨List.subset_append_of_subset_left _ h.values,
      List.subset_append_right _ _⟩
  · exact h.equations.append_singleton (fun a ha => (hatoms a ha).mono h.values) htyped
  · rw [hvars] at hv
    rcases List.mem_append.1 hv with hv | hv
    · exact h.rendered v hv
    · have : v.type ∈ (freshVars r.nextVar types).map Var.type := List.mem_map_of_mem hv
      rw [map_type_freshVars] at this
      exact htypes _ this

/-- An arithmetic statement leaves what is recorded typed. -/
theorem of_makes (hknown : ∀ k ∈ known, Tracer.Renders symbols k.2) {st : Statement}
    {made : List Var} (hmakes : Recorder.Makes settings known r st made r')
    (harith : st.isArithmetic = true) (h : r.Typed symbols known inputs) :
    (r'.holdAll made).Typed symbols known inputs := by
  have hrendered : ∀ {a : Atom}, a.IsOneOf r.values → (symbols.renderShape? a.type).isSome :=
    fun ha =>
    (ha.mono h.values).isSome_renderShape? h.rendered
  cases hmakes with
  | constant value => exact h.addConstant value
  | draw dtype dims bytes =>
    exact addConstant (r := { r with counts := r.counts.draw })
      ⟨h.values, h.equations, h.rendered⟩ _
  | @elementwise primitive lhs rhs a b shape left right fits =>
    have ha := Operand.isOneOf_of_atom? left
    have hb := Operand.isOneOf_of_atom? right
    refine h.addEquation (by simp [ha, hb]) (.primitive rfl harith rfl rfl)
      (List.forall_mem_singleton.2 ?_)
    refine SymbolTable.isSome_renderShape?_iff.2 fun d hd => ?_
    rcases mem_of_broadcast? fits hd with hd | hd
    · exact SymbolTable.isSome_renderShape?_iff.1 (hrendered ha) d hd
    · exact SymbolTable.isSome_renderShape?_iff.1 (hrendered hb) d hd
  | bind primitive types params operands => simp [Statement.isArithmetic] at harith
  | @call index counts args atoms name tracer inner operands callee trace =>
    have hatoms : ∀ a ∈ atoms, a.IsOneOf r.values := fun a ha => by
      have : some a ∈ args.map (Operand.atom? settings r.values) :=
        operands ▸ List.mem_map_of_mem ha
      obtain ⟨o, -, ho⟩ := List.mem_map.1 this
      exact Operand.isOneOf_of_atom? ho
    refine addEquation (r := { r with counts }) ⟨h.values, h.equations, h.rendered⟩ hatoms
      (.call rfl callee trace (map_type_freshVars _ _)) fun type htype => ?_
    obtain ⟨a, ha, rfl⟩ := List.mem_map.1 htype
    refine hknown _ (List.mem_of_getElem? callee) trace (fun type htype => ?_) a ha
    obtain ⟨b, hb, rfl⟩ := List.mem_map.1 htype
    exact hrendered (hatoms b hb)
  | foreign v => simp [Statement.isArithmetic] at harith

theorem start {types : List AbstractValue}
    (htypes : ∀ type ∈ types, (symbols.renderShape? type).isSome) (counts : Counts) :
    (Recording.start types counts).Typed symbols known (freshVars 0 types) where
  values := by simp [Recording.start, vars]
  equations := trivial
  rendered v hv := by
    have hv : v ∈ freshVars 0 types := by simpa [Recording.start, vars] using hv
    have : v.type ∈ (freshVars 0 types).map Var.type := List.mem_map_of_mem hv
    rw [map_type_freshVars] at this
    exact htypes _ this

end Recording.Typed

/-- The trace of an arithmetic callable is typed. -/
theorem Callable.typed_tracer (hknown : ∀ k ∈ known, Tracer.Renders symbols k.2) {c : Callable}
    (harith : c.IsArithmetic) {types : List AbstractValue} {counts counts' : Counts} {t : Trace}
    (h : c.tracer settings known types counts = .ok (t, counts'))
    (htypes : ∀ type ∈ types, (symbols.renderShape? type).isSome) : t.Typed symbols known := by
  obtain ⟨-, r, hbody, hresults, -, hinputs, hconstants, hequations, -⟩ := tracer_eq_ok.1 h
  have hr : r.Typed symbols known (freshVars 0 types) := Recorder.statements_invariant
    (P := Recording.Typed symbols known (freshVars 0 types))
    (fun st hst _ _ _ hmakes => .of_makes hknown hmakes (List.all_eq_true.1 (harith _ _) st hst))
    hbody (.start htypes counts)
  have hvars : t.vars = r.vars (freshVars 0 types) := by
    rw [Trace.vars, Recording.vars, hinputs, hconstants, hequations]
  refine ⟨by rw [hinputs, hconstants, hequations]; exact hr.equations, fun a ha => ?_,
    hvars ▸ hr.rendered⟩
  have : some a ∈ (c.results types counts.runs).map (Operand.atom? settings r.values) :=
    hresults ▸ List.mem_map_of_mem ha
  obtain ⟨o, -, ho⟩ := List.mem_map.1 this
  rw [hvars]
  exact (Operand.isOneOf_of_atom? ho).mono hr.values

/-- The tracers of an arithmetic program leave outputs whose shapes can be rendered. -/
theorem Program.renders_tracers {program : Program} (harith : ∀ c ∈ program, c.IsArithmetic) :
    ∀ k ∈ program.tracers settings, Tracer.Renders symbols k.2 := by
  induction program using List.reverseRecOn with
  | nil => simp [tracers]
  | append_singleton program c ih =>
    have hprogram := ih fun c hc => harith c (List.mem_append_left _ hc)
    intro k hk
    rw [tracers_append_singleton] at hk
    rcases List.mem_append.1 hk with hk | hk
    · exact hprogram k hk
    · obtain rfl := List.mem_singleton.1 hk
      intro types counts t counts' h htypes a ha
      have ht := Callable.typed_tracer hprogram (harith c (by simp)) h htypes
      exact (ht.outputs a ha).isSome_renderShape? ht.rendered

/-- A typed call has outputs of the types that a trace of its callable has. -/
theorem Equation.Typed.exists_trace {program before after : Program}
    (hprogram : program = before ++ after) {e : Equation} (h : e.Typed (before.tracers settings))
    {index : Nat} (hcallee : e.callee? = some index) {c : Callable}
    (hc : program[index]? = some c) : ∃ t counts counts',
      c.tracer settings (Program.tracers settings (program.take index)) (e.inputs.map Atom.type)
        counts = .ok (t, counts') ∧
      e.outputs.map Var.type = t.outputs.map Atom.type := by
  cases h with
  | primitive callee => simp [hcallee] at callee
  | @call index' counts counts' name tracer inner callee target trace outputs =>
    obtain rfl : index = index' := Option.some.inj (hcallee.symm.trans callee)
    rw [Program.tracer_of_append hprogram hc target] at trace
    exact ⟨inner, counts, counts', trace, outputs⟩

end Typed

end TensorGraph
