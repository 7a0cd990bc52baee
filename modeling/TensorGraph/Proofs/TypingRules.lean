import TensorGraph.Proofs.TypedTraces

/-!
# Typing rules of traces

The constants of a trace have the types of their tensors, and the output of a primitive has the
shape that its operands broadcast to (`Callable.obeysRules_tracer`).

A callee is traced when its call is recorded and again when the call is lowered. Where it takes the
same steps in every run, the two traces differ in what was drawn only : inputs, equations, results
and the types of constants are the same (`Program.steady_tracers`). Then constants are the same
variables too (`Callable.constantVars_eq_of_alike`).
-/

namespace TensorGraph

/-! ## Rules -/

/-- The output has the shape that two operands broadcast to, and the element type of the first. -/
def Equation.Broadcasts (e : Equation) : Prop :=
  ∃ a b v shape, e.inputs = [a, b] ∧ e.outputs = [v] ∧
    broadcast? a.type.shape b.type.shape = some shape ∧
    v.type = ⟨shape, a.type.dtype⟩

/-- Constants have the types of their tensors, and the outputs of primitives those that their
operands give. -/
structure ObeyRules (constants : List (Var × Tensor)) (equations : List Equation) : Prop where
  constants : ∀ c ∈ constants, c.1.type = c.2.type
  primitives : ∀ e ∈ equations, e.callee? = none → e.Broadcasts

section Rules

variable {settings : Params} {known : List (String × Tracer)} {r r' : Recording}

theorem ObeyRules.addConstant (h : ObeyRules r.constants r.equations) (value : Tensor) :
    ObeyRules (r.addConstant value).constants (r.addConstant value).equations where
  constants := by
    simp only [Recording.addConstant, List.forall_mem_append, List.forall_mem_singleton]
    exact ⟨h.constants, rfl⟩
  primitives := h.primitives

theorem ObeyRules.addEquation (h : ObeyRules r.constants r.equations) {primitive : String}
    {atoms : List Atom} {types : List AbstractValue} {params : Params}
    (he : Equation.callee? ⟨primitive, atoms, freshVars r.nextVar types, params⟩ = none →
      Equation.Broadcasts ⟨primitive, atoms, freshVars r.nextVar types, params⟩) :
    ObeyRules (r.addEquation primitive atoms types params).constants
      (r.addEquation primitive atoms types params).equations where
  constants := h.constants
  primitives := by
    simp only [Recording.addEquation, List.forall_mem_append, List.forall_mem_singleton]
    exact ⟨h.primitives, he⟩

/-- An arithmetic statement obeys the rules. -/
theorem ObeyRules.of_makes {st : Statement} {made : List Var}
    (hmakes : Recorder.Makes settings known r st made r') (harith : st.isArithmetic = true)
    (h : ObeyRules r.constants r.equations) :
    ObeyRules (r'.holdAll made).constants (r'.holdAll made).equations := by
  cases hmakes with
  | constant value => exact h.addConstant value
  | draw dtype dims bytes =>
    exact addConstant (r := { r with counts := r.counts.draw }) ⟨h.constants, h.primitives⟩ _
  | @elementwise primitive lhs rhs a b shape left right fits =>
    exact h.addEquation fun _ => ⟨a, b, _, shape, rfl, rfl, fits, rfl⟩
  | bind primitive types params operands => simp [Statement.isArithmetic] at harith
  | @call index counts args atoms name tracer inner operands callee trace =>
    exact addEquation (r := { r with counts }) ⟨h.constants, h.primitives⟩
      fun hcallee => by simp [Equation.callee?] at hcallee
  | foreign v => exact h

/-- The trace of an arithmetic callable obeys the rules. -/
theorem Callable.obeysRules_tracer {c : Callable} (harith : c.IsArithmetic)
    {types : List AbstractValue} {counts counts' : Counts} {t : Trace}
    (h : c.tracer settings known types counts = .ok (t, counts')) :
    ObeyRules t.constants t.equations := by
  obtain ⟨-, r, hbody, -, -, -, hconstants, hequations, -⟩ := tracer_eq_ok.1 h
  rw [hconstants, hequations]
  exact Recorder.statements_invariant (P := fun r => ObeyRules r.constants r.equations)
    (fun st hst _ _ _ hmakes => .of_makes hmakes (List.all_eq_true.1 (harith _ _) st hst)) hbody
    ⟨by simp [Recording.start], by simp [Recording.start]⟩

/-- The constants of a trace have the types of their tensors. -/
theorem Callable.type_constant_tracer {c : Callable} {types : List AbstractValue}
    {counts counts' : Counts} {t : Trace}
    (h : c.tracer settings known types counts = .ok (t, counts')) :
    ∀ p ∈ t.constants, p.1.type = p.2.type := by
  obtain ⟨-, r, hbody, -, -, -, hconstants, -⟩ := tracer_eq_ok.1 h
  rw [hconstants]
  refine Recorder.statements_invariant (P := fun r => ∀ p ∈ r.constants, p.1.type = p.2.type)
    (fun st _ r r' made hmakes hr => ?_) hbody (by simp [Recording.start])
  cases hmakes with
  | constant value => exact List.forall_mem_append.2 ⟨hr, List.forall_mem_singleton.2 rfl⟩
  | draw dtype dims bytes => exact List.forall_mem_append.2 ⟨hr, List.forall_mem_singleton.2 rfl⟩
  | elementwise primitive left right fits => exact hr
  | bind primitive types params operands => exact hr
  | call operands callee trace => exact hr
  | foreign v => exact hr

end Rules

/-! ## Draws -/

/-- Two traces have the same inputs, equations and outputs, and their constants have the same
types. -/
structure Trace.Alike (t t' : Trace) : Prop where
  inputs : t.inputs = t'.inputs
  constants : t.constants.map (fun c => c.2.type) = t'.constants.map fun c => c.2.type
  equations : t.equations = t'.equations
  outputs : t.outputs = t'.outputs

/-- All traces on the same types are alike, whatever was run and drawn before. -/
def Tracer.Steady (tracer : Tracer) : Prop :=
  ∀ ⦃types counts t counts' other t' other'⦄, tracer types counts = .ok (t, counts') →
    tracer types other = .ok (t', other') → t.Alike t'

/-- All traces of the callable at a position are alike, on the same types. -/
def Program.SteadyAt (settings : Params) (program : Program) (index : Nat) : Prop :=
  ∀ k, (program.tracers settings)[index]? = some k → k.2.Steady

section Draws

variable {settings : Params} {known : List (String × Tracer)} {r r' s s' : Recording}

/-- Two recordings differ at most in what their constants hold. -/
structure Recording.Alike (r s : Recording) : Prop where
  nextVar : r.nextVar = s.nextVar
  constants : r.constants.map Prod.fst = s.constants.map Prod.fst
  equations : r.equations = s.equations
  values : r.values = s.values

theorem Recording.Alike.holdAll (h : r.Alike s) (made : List Var) :
    (r.holdAll made).Alike (s.holdAll made) :=
  ⟨h.nextVar, h.constants, h.equations, congrArg (· ++ made) h.values⟩

theorem Recording.Alike.addConstant (h : r.Alike s) {value value' : Tensor}
    (htype : value.type = value'.type) :
    [r.constantVar value] = [s.constantVar value'] ∧
      (r.addConstant value).Alike (s.addConstant value') := by
  have hvar : r.constantVar value = s.constantVar value' := by
    rw [constantVar, constantVar, h.nextVar, htype]
  refine ⟨by rw [hvar], ?_, ?_, h.equations, h.values⟩
  · simp [Recording.addConstant, h.nextVar]
  · simp [Recording.addConstant, h.constants, hvar]

theorem Recording.Alike.addEquation (h : r.Alike s) (primitive : String) (atoms : List Atom)
    (types : List AbstractValue) (params : Params) :
    freshVars r.nextVar types = freshVars s.nextVar types ∧
      (r.addEquation primitive atoms types params).Alike
        (s.addEquation primitive atoms types params) := by
  refine ⟨by rw [h.nextVar], ?_, h.constants, ?_, h.values⟩
  · simp [Recording.addEquation, h.nextVar]
  · simp [Recording.addEquation, h.nextVar, h.equations]

/-- A statement makes the same variables in recordings that are alike. -/
theorem Recorder.Makes.alike (hknown : ∀ k ∈ known, k.2.Steady) {st : Statement}
    {made made' : List Var} (h : Makes settings known r st made r')
    (h' : Makes settings known s st made' s') (halike : r.Alike s) :
    made = made' ∧ r'.Alike s' := by
  cases h with
  | constant value =>
    cases h'
    exact halike.addConstant rfl
  | draw dtype dims bytes =>
    cases h'
    exact Recording.Alike.addConstant (r := { r with counts := r.counts.draw })
      (s := { s with counts := s.counts.draw })
      ⟨halike.nextVar, halike.constants, halike.equations, halike.values⟩ rfl
  | elementwise primitive left right fits =>
    cases h' with
    | elementwise _ left' right' fits' =>
      rw [halike.values] at left right
      obtain rfl := Option.some.inj (left.symm.trans left')
      obtain rfl := Option.some.inj (right.symm.trans right')
      obtain rfl := Option.some.inj (fits.symm.trans fits')
      exact halike.addEquation ..
  | bind primitive types params operands =>
    cases h' with
    | bind _ _ _ operands' =>
      rw [halike.values, operands'] at operands
      obtain rfl := (List.map_inj_right fun _ _ => Option.some.inj).1 operands
      exact halike.addEquation ..
  | @call index counts args atoms name tracer inner operands callee trace =>
    cases h' with
    | @call _ counts' _ _ _ _ inner' operands' callee' trace' =>
      rw [halike.values, operands'] at operands
      obtain rfl := (List.map_inj_right fun _ _ => Option.some.inj).1 operands
      obtain ⟨rfl, rfl⟩ := Prod.mk.inj (Option.some.inj (callee.symm.trans callee'))
      rw [(hknown _ (List.mem_of_getElem? callee) trace trace').outputs]
      exact Recording.Alike.addEquation (r := { r with counts }) (s := { s with counts := counts' })
        ⟨halike.nextVar, halike.constants, halike.equations, halike.values⟩ ..
  | foreign v =>
    cases h'
    exact ⟨rfl, halike⟩

theorem Recorder.alike_statements (hknown : ∀ k ∈ known, k.2.Steady) {body : List Statement}
    (h : statements settings known body r = .ok ((), r'))
    (h' : statements settings known body s = .ok ((), s')) (halike : r.Alike s) : r'.Alike s' := by
  induction body generalizing r s with
  | nil =>
    obtain ⟨-, rfl⟩ := pure_eq_ok.1 h
    obtain ⟨-, rfl⟩ := pure_eq_ok.1 h'
    exact halike
  | cons st rest ih =>
    obtain ⟨made, r₁, hmade, hrest⟩ := statements_cons_eq_ok.1 h
    obtain ⟨made', s₁, hmade', hrest'⟩ := statements_cons_eq_ok.1 h'
    obtain ⟨rfl, halike₁⟩ :=
      (makes_of_statement hmade).alike hknown (makes_of_statement hmade') halike
    exact ih hrest hrest' (halike₁.holdAll made)

theorem map_type_snd_constants {constants : List (Var × Tensor)}
    (h : ∀ c ∈ constants, c.1.type = c.2.type) :
    constants.map (fun c => c.2.type) = (constants.map Prod.fst).map Var.type := by
  rw [List.map_map]
  exact List.map_congr_left fun c hc => (h c hc).symm

theorem Callable.steady_tracer (hknown : ∀ k ∈ known, k.2.Steady) {c : Callable}
    (hc : c.IsUniform) : Tracer.Steady (c.tracer settings known) := by
  intro types counts t counts' other t' other' h h'
  have htyped := type_constant_tracer h
  have htyped' := type_constant_tracer h'
  obtain ⟨-, r, hbody, hresults, -, hinputs, hconstants, hequations, -⟩ := tracer_eq_ok.1 h
  obtain ⟨-, s, hbody', hresults', -, hinputs', hconstants', hequations', -⟩ := tracer_eq_ok.1 h'
  obtain ⟨hsteps, hreturns⟩ := hc types other.runs counts.runs
  rw [hsteps] at hbody'
  rw [hreturns] at hresults'
  have halike := Recorder.alike_statements hknown hbody hbody' ⟨rfl, rfl, rfl, rfl⟩
  rw [halike.values, hresults'] at hresults
  refine ⟨by rw [hinputs, hinputs'], ?_, by rw [hequations, hequations', halike.equations], ?_⟩
  · rw [map_type_snd_constants htyped, map_type_snd_constants htyped', hconstants, hconstants',
      halike.constants]
  · exact ((List.map_inj_right fun _ _ => Option.some.inj).1 hresults).symm

/-- The traces of callables that take the same steps in every run depend on what was drawn in their
constants only. -/
theorem Program.steady_tracers (settings : Params) {program : Program}
    (huniform : ∀ c ∈ program, c.IsUniform) : ∀ k ∈ program.tracers settings, k.2.Steady := by
  induction program using List.reverseRecOn with
  | nil => simp [tracers]
  | append_singleton program c ih =>
    have hprogram := ih fun c hc => huniform c (List.mem_append_left _ hc)
    intro k hk
    rw [tracers_append_singleton] at hk
    rcases List.mem_append.1 hk with hk | hk
    · exact hprogram k hk
    · obtain rfl := List.mem_singleton.1 hk
      exact Callable.steady_tracer hprogram (huniform c (by simp))

/-- Constants of traces that are alike are the same variables : they have the numbers that inputs
and equations leave, in order. -/
theorem Callable.constantVars_eq_of_alike {c : Callable} {types : List AbstractValue} {t t' : Trace}
    {counts counts' other other' : Counts}
    (h : c.tracer settings known types counts = .ok (t, counts'))
    (h' : c.tracer settings known types other = .ok (t', other')) (halike : t.Alike t') :
    t.constants.map Prod.fst = t'.constants.map Prod.fst := by
  obtain ⟨⟨n, hperm⟩, hascending⟩ := numbered_tracer h
  obtain ⟨⟨n', hperm'⟩, hascending'⟩ := numbered_tracer h'
  have hlength : t.constants.length = t'.constants.length := by
    simpa using congrArg List.length halike.constants
  rw [Trace.given, halike.inputs, halike.equations] at hperm
  rw [Trace.given] at hperm'
  obtain rfl : n = n' := by
    have := hperm.length_eq
    have := hperm'.length_eq
    simp only [List.length_append, List.length_map, List.length_range] at *
    omega
  have hnumbers := (List.perm_append_left_iff _).1
    ((List.perm_append_right_iff _).1 (hperm.trans hperm'.symm))
  have hids := hnumbers.eq_of_pairwise (fun a b _ _ hab hba => by omega) hascending hascending'
  have hvars : ∀ {t : Trace}, (∀ p ∈ t.constants, p.1.type = p.2.type) →
      t.constants.map Prod.fst = List.zipWith Var.mk (t.constants.map fun c => c.1.id)
        (t.constants.map fun c => c.2.type) := by
    intro t htyped
    rw [List.zipWith_map, List.zipWith_self]
    exact List.map_congr_left fun p hp => by rw [← htyped p hp]
  rw [hvars (type_constant_tracer h), hvars (type_constant_tracer h'), hids, halike.constants]

end Draws

end TensorGraph
