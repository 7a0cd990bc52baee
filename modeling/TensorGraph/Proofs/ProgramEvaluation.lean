import TensorGraph.Proofs.Recording
import TensorGraph.Shape.Spec

/-!
# Evaluating programs

A program that is made of constants, literals, the three arithmetic primitives and calls can be
evaluated on values directly : a callable holds values in place of variables, and a call evaluates
the callee on the values of its arguments (`Callable.eval`, `Program.evaluate`). The types of values
are carried along, since a literal may take the element type of a value and operands must fit.

Wherever such a callable can be traced, it can be evaluated on values of these types, and the trace
holds of what evaluation computes (`Callable.exists_eval`) : each equation relates the values of its
operands and outputs.
-/

namespace TensorGraph

/-- What constants and the arithmetic primitives mean. -/
structure Arithmetic (V : Type) where
  constant : Tensor → V
  add : V → V → V
  mul : V → V → V
  pow : V → V → V

/-- A value with its type. -/
structure TypedValue (V : Type) where
  value : V
  type : AbstractValue

/-- Evaluate a callable on its arguments, from given counts on; the counts are returned with the
results. -/
abbrev Evaluator (V : Type) :=
  List (TypedValue V) → Counts → Option (List (TypedValue V) × Counts)

section Evaluate

variable {V : Type} (A : Arithmetic V) (settings : Params)

namespace Arithmetic

/-- The meaning of a primitive. -/
def primitive? (primitive : String) : Option (V → V → V) :=
  if primitive = "add" then some A.add
  else if primitive = "mul" then some A.mul
  else if primitive = "pow" then some A.pow
  else none

/-- The meaning of the operation of a node. -/
def operation? (operation : String) : Option (V → V → V) :=
  if operation = "Add" then some A.add
  else if operation = "Mul" then some A.mul
  else if operation = "Pow" then some A.pow
  else none

/-- A primitive means what its operation means. -/
theorem exists_of_operation? {primitive operation : String}
    (h : TensorGraph.operation? primitive = some operation) :
    ∃ f, A.primitive? primitive = some f ∧ A.operation? operation = some f := by
  unfold TensorGraph.operation? at h
  split_ifs at h with hadd hmul hpow
  all_goals obtain rfl := Option.some.inj h
  · exact ⟨A.add, by simp [primitive?, hadd], rfl⟩
  · exact ⟨A.mul, by simp [primitive?, hmul], rfl⟩
  · exact ⟨A.pow, by simp [primitive?, hpow], rfl⟩

/-- The value of a constant. -/
def literal (t : Tensor) : TypedValue V :=
  ⟨A.constant t, t.type⟩

end Arithmetic

/-- The value of an operand, where the callable holds `held`. -/
def Operand.eval? (held : List (TypedValue V)) : Operand → Option (TypedValue V)
  | .value index => held[index]?
  | .literal dtype x => some (A.literal (.scalar dtype x))
  | .literalLike index x => held[index]?.map fun v => A.literal (.scalar v.type.dtype x)
  | .tensor t => some (A.literal t)
  | .param dtype key =>
    some (A.literal (.scalar dtype (match settings.lookup key with
      | some p => p.number
      | none => .ofInt (-1))))

/-- Run a statement; the result is what it makes. There is no meaning of primitives other than the
arithmetic ones, of foreign variables and of giving up. -/
def Statement.eval (known : List (Evaluator V)) (held : List (TypedValue V)) (counts : Counts) :
    Statement → Option (List (TypedValue V) × Counts)
  | .constant t => some ([A.literal t], counts)
  | .draw dtype dims bytes => some ([A.literal ⟨dtype, dims, bytes counts.drawn⟩], counts.draw)
  | .elementwise primitive lhs rhs => do
    let x ← lhs.eval? A settings held
    let y ← rhs.eval? A settings held
    let f ← A.primitive? primitive
    let shape ← broadcast? x.type.shape y.type.shape
    some ([⟨f x.value y.value, ⟨shape, x.type.dtype⟩⟩], counts)
  | .call index args => do
    let args ← args.mapM (Operand.eval? A settings held)
    let callee ← known[index]?
    callee args counts
  | .bind .. => none
  | .foreign _ => none
  | .fail _ => none

/-- Run statements in order, holding what they make. -/
def evalStatements (known : List (Evaluator V)) :
    List Statement → List (TypedValue V) → Counts → Option (List (TypedValue V) × Counts)
  | [], held, counts => some (held, counts)
  | s :: rest, held, counts => do
    let (made, counts) ← s.eval A settings known held counts
    evalStatements known rest (held ++ made) counts

/-- Evaluate a callable, from the evaluators of those before it. -/
def Callable.eval (known : List (Evaluator V)) (c : Callable) : Evaluator V := fun args counts => do
  (c.checkArity args.length).toOption
  let types := args.map TypedValue.type
  let (held, counts') ← evalStatements A settings known (c.body types counts.runs) args counts.run
  let results ← (c.results types counts.runs).mapM (Operand.eval? A settings held)
  some (results, counts')

namespace Program

/-- The evaluators of the callables, in order. -/
def evaluators (program : Program) : List (Evaluator V) :=
  program.foldl (fun known c => known ++ [c.eval A settings known]) []

/-- Evaluate the entry of a program on values of its declared inputs. -/
def evaluate (program : Program) (inputs : List InputSpec) (values : List V) : Option (List V) := do
  let entry ← program.getLast?
  let args := List.zipWith TypedValue.mk values (InputSpec.abstractAll inputs).2
  let (results, _) ← entry.eval A settings (evaluators A settings program.dropLast) args .start
  some (results.map TypedValue.value)

theorem evaluators_append_singleton (program : Program) (c : Callable) :
    evaluators A settings (program ++ [c]) =
      evaluators A settings program ++ [c.eval A settings (evaluators A settings program)] := by
  simp [evaluators]

/-- Each evaluator is made from those before it. -/
theorem getElem?_evaluators {program : Program} {index : Nat} {c : Callable}
    (h : program[index]? = some c) :
    (evaluators A settings program)[index]? =
      some (c.eval A settings (evaluators A settings (program.take index))) :=
  getElem?_foldl_snoc (fun known (c : Callable) => c.eval A settings known) h

theorem evaluators_take_isPrefix_self (program : Program) (index : Nat) :
    evaluators A settings (program.take index) <+: evaluators A settings program :=
  foldl_snoc_take_isPrefix_self (fun known (c : Callable) => c.eval A settings known) program index

end Program

end Evaluate

/-! ## Programs that can be evaluated -/

/-- Is the statement one of those that can be evaluated? Giving up is one of them: where it is
reached, there is no trace. -/
def Statement.isArithmetic : Statement → Bool
  | .elementwise primitive _ _ => (operation? primitive).isSome
  | .bind .. => false
  | .foreign _ => false
  | _ => true

/-- Are all statements of the callable such ones, in every run? -/
def Callable.IsArithmetic (c : Callable) : Prop :=
  ∀ types run, (c.body types run).all Statement.isArithmetic = true

@[simp] theorem Callable.isArithmetic_fixed {name : String} {arity : Option Arity}
    {body : List Statement} {results : List Operand} :
    (fixed name arity body results).IsArithmetic ↔ body.all Statement.isArithmetic = true :=
  ⟨fun h => h [] 0, fun h _ _ => h⟩

/-! ## Traces that hold -/

section Holds

variable {V : Type} {A : Arithmetic V} {known : List (Evaluator V)} {ν ν' : Nat → Option V}

/-- The value of an operand, where variables have the values `ν`. -/
def Atom.value? (A : Arithmetic V) (ν : Nat → Option V) : Atom → Option V
  | .var v => ν v.id
  | .literal t => some (A.constant t)

/-- The values of an equation's operands and outputs are related as it says. -/
inductive Equation.Holds (A : Arithmetic V) (known : List (Evaluator V)) (ν : Nat → Option V) :
    Equation → Prop where
  | primitive {e : Equation} {a b : Atom} {v : Var} {f : V → V → V} {x y : V}
      (callee : e.callee? = none) (operation : A.primitive? e.primitive = some f)
      (inputs : e.inputs = [a, b]) (outputs : e.outputs = [v]) (lhs : a.value? A ν = some x)
      (rhs : b.value? A ν = some y) (out : ν v.id = some (f x y)) : Holds A known ν e
  | call {e : Equation} {index : Nat} {counts counts' : Counts} {eval : Evaluator V}
      {args results : List (TypedValue V)} (callee : e.callee? = some index)
      (evaluator : known[index]? = some eval)
      (types : args.map TypedValue.type = e.inputs.map Atom.type)
      (inputs : e.inputs.map (Atom.value? A ν) = (args.map TypedValue.value).map some)
      (result : eval args counts = some (results, counts'))
      (outputs : e.outputs.map (fun v => ν v.id) = (results.map TypedValue.value).map some) :
      Holds A known ν e

/-- A trace holds of the values of its variables. -/
structure Trace.Holds (A : Arithmetic V) (known : List (Evaluator V)) (ν : Nat → Option V)
    (t : Trace) (values results : List V) : Prop where
  inputs : t.inputs.map (fun v => ν v.id) = values.map some
  constants : ∀ c ∈ t.constants, ν c.1.id = some (A.constant c.2)
  equations : ∀ e ∈ t.equations, e.Holds A known ν
  outputs : t.outputs.map (Atom.value? A ν) = results.map some

theorem Atom.value?_mono (hν : ∀ id x, ν id = some x → ν' id = some x) (a : Atom) (x : V)
    (h : a.value? A ν = some x) :
    a.value? A ν' = some x := by
  cases a with
  | var v => exact hν _ _ h
  | literal t => exact h

theorem Equation.Holds.mono (hν : ∀ id x, ν id = some x → ν' id = some x) {e : Equation}
    (h : e.Holds A known ν) :
    e.Holds A known ν' := by
  cases h with
  | primitive callee operation inputs outputs lhs rhs out =>
    exact .primitive callee operation inputs outputs (Atom.value?_mono hν _ _ lhs)
      (Atom.value?_mono hν _ _ rhs) (hν _ _ out)
  | call callee evaluator types inputs result outputs =>
    exact .call callee evaluator types (map_eq_map_some_mono (Atom.value?_mono hν) inputs) result
      (map_eq_map_some_mono (fun v : Var => hν v.id) outputs)

/-- A trace that refers to some evaluators holds with more of them too. -/
theorem Trace.Holds.mono {t : Trace} {values results : List V} {more : List (Evaluator V)}
    (h : t.Holds A known ν values results) (hmore : known <+: more) :
    t.Holds A more ν values results where
  inputs := h.inputs
  constants := h.constants
  equations e he := by
    cases h.equations e he with
    | primitive callee operation inputs outputs lhs rhs out =>
      exact .primitive callee operation inputs outputs lhs rhs out
    | call callee evaluator types inputs result outputs =>
      obtain ⟨hi, rfl⟩ := List.getElem?_eq_some_iff.1 evaluator
      exact .call callee (List.prefix_iff_getElem?.1 hmore _ hi) types inputs result outputs
  outputs := h.outputs

end Holds

/-! ## Recording and evaluating in step -/

section Follow

variable {V : Type} {A : Arithmetic V} {settings : Params} {tracers : List (String × Tracer)}
  {known : List (Evaluator V)} {held made : List (TypedValue V)}

/-- The value of a variable whose number is its place among the values that are held. -/
def heldValue (held : List (TypedValue V)) (id : Nat) : Option V :=
  held[id]?.map TypedValue.value

theorem heldValue_append (made : List (TypedValue V)) (id : Nat) (x : V)
    (h : heldValue held id = some x) :
    heldValue (held ++ made) id = some x := by
  obtain ⟨v, hv, rfl⟩ := Option.map_eq_some_iff.1 h
  rw [heldValue, List.getElem?_append_left (List.getElem?_eq_some_iff.1 hv).1, hv, Option.map_some]

theorem getElem?_freshVars (next : Nat) (types : List AbstractValue) (i : Nat) :
    (freshVars next types)[i]? = types[i]?.map fun type => ⟨next + i, type⟩ := by
  rw [freshVars, List.getElem?_map, List.getElem?_zipIdx, Option.map_map]
  rfl

theorem freshVars_append (next : Nat) (types more : List AbstractValue) :
    freshVars next (types ++ more) = freshVars next types ++
      freshVars (next + types.length) more := by
  rw [freshVars, List.zipIdx_append, List.map_append]
  rfl

/-- New variables have the values that are held next. -/
theorem map_heldValue_freshVars (held made : List (TypedValue V)) :
    (freshVars held.length (made.map TypedValue.type)).map
      (fun v => heldValue (held ++ made) v.id) = (made.map TypedValue.value).map some := by
  refine List.ext_getElem? fun i => ?_
  simp only [List.getElem?_map, getElem?_freshVars, Option.map_map]
  cases hi : made[i]? with
  | none => simp
  | some v => simp [heldValue, List.getElem?_append_right, hi]

theorem Operand.exists_eval? {o : Operand} {a : Atom}
    (h : o.atom? settings (freshVars 0 (held.map TypedValue.type)) = some a) :
    ∃ x, o.eval? A settings held = some x ∧ x.type = a.type ∧
      a.value? A (heldValue held) = some x.value := by
  cases o with
  | value index =>
    simp only [atom?, getElem?_freshVars, List.getElem?_map, Option.map_map,
      Option.map_eq_some_iff] at h
    obtain ⟨x, hx, rfl⟩ := h
    exact ⟨x, hx, rfl, by simp [Atom.value?, heldValue, hx]⟩
  | literalLike index y =>
    simp only [atom?, getElem?_freshVars, List.getElem?_map, Option.map_map,
      Option.map_eq_some_iff] at h
    obtain ⟨x, hx, rfl⟩ := h
    exact ⟨_, by rw [eval?, hx, Option.map_some], rfl, rfl⟩
  | literal dtype y =>
    obtain rfl := Option.some.inj h
    exact ⟨_, rfl, rfl, rfl⟩
  | tensor t =>
    obtain rfl := Option.some.inj h
    exact ⟨_, rfl, rfl, rfl⟩
  | param dtype key =>
    obtain rfl := Option.some.inj h
    exact ⟨_, rfl, rfl, rfl⟩

theorem exists_mapM_eval? {os : List Operand} {atoms : List Atom}
    (h : os.map (Operand.atom? settings (freshVars 0 (held.map TypedValue.type))) =
      atoms.map some) :
    ∃ xs, os.mapM (Operand.eval? A settings held) = some xs ∧
      xs.map TypedValue.type = atoms.map Atom.type ∧
      atoms.map (Atom.value? A (heldValue held)) = (xs.map TypedValue.value).map some := by
  induction os generalizing atoms with
  | nil =>
    obtain rfl : atoms = [] := by simpa using h.symm
    exact ⟨[], rfl, rfl, rfl⟩
  | cons o os ih =>
    cases atoms with
    | nil => simp at h
    | cons a atoms =>
      simp only [List.map_cons, List.cons.injEq] at h
      obtain ⟨x, hx, htype, hvalue⟩ := Operand.exists_eval? (A := A) h.1
      obtain ⟨xs, hxs, htypes, hvalues⟩ := ih h.2
      exact ⟨x :: xs, by simp [List.mapM_cons, hx, hxs], by simp [htype, htypes],
        by simp [hvalue, ← hvalues]⟩

/-- Wherever the tracer succeeds the evaluator does, with results of the same types. -/
def Evaluator.Follows (eval : Evaluator V) (tracer : Tracer) : Prop :=
  ∀ ⦃types counts t counts'⦄, tracer types counts = .ok (t, counts') → ∀ args : List (TypedValue V),
    args.map TypedValue.type = types → ∃ results, eval args counts = some (results, counts') ∧
      results.map TypedValue.type = t.outputs.map Atom.type

/-- What is recorded holds of the values that are held. -/
structure Recording.Follows (A : Arithmetic V) (known : List (Evaluator V)) (r : Recording)
    (held : List (TypedValue V)) : Prop where
  values : r.values = freshVars 0 (held.map TypedValue.type)
  nextVar : r.nextVar = held.length
  constants : ∀ c ∈ r.constants, heldValue held c.1.id = some (A.constant c.2)
  equations : ∀ e ∈ r.equations, e.Holds A known (heldValue held)

namespace Recording.Follows

variable {r r' : Recording}

theorem addConstant (h : r.Follows A known held) (t : Tensor) :
    ((r.addConstant t).holdAll [r.constantVar t]).Follows A known (held ++ [A.literal t]) where
  values := by
    rw [List.map_append, freshVars_append, List.length_map, Nat.zero_add, ← h.nextVar, ← h.values]
    rfl
  nextVar := by simp [holdAll, Recording.addConstant, h.nextVar]
  constants c hc := by
    rcases List.mem_append.1 hc with hc | hc
    · exact heldValue_append _ _ _ (h.constants c hc)
    · obtain rfl : c = (r.constantVar t, t) := by simpa using hc
      simp [heldValue, constantVar, h.nextVar, Arithmetic.literal]
  equations e he := (h.equations e he).mono (heldValue_append _)

theorem addEquation (h : r.Follows A known held) {primitive : String} {atoms : List Atom}
    {params : Params}
    (hholds : Equation.Holds A known (heldValue (held ++ made)) ⟨primitive, atoms,
      freshVars held.length (made.map TypedValue.type), params⟩) :
    ((r.addEquation primitive atoms (made.map TypedValue.type) params).holdAll
      (freshVars r.nextVar (made.map TypedValue.type))).Follows A known (held ++ made) where
  values := by
    rw [List.map_append, freshVars_append, List.length_map, Nat.zero_add, ← h.nextVar, ← h.values]
    rfl
  nextVar := by simp [holdAll, Recording.addEquation, h.nextVar]
  constants c hc := heldValue_append _ _ _ (h.constants c hc)
  equations e he := by
    rcases List.mem_append.1 he with he | he
    · exact (h.equations e he).mono (heldValue_append _)
    · obtain rfl := List.mem_singleton.1 he
      rw [h.nextVar]
      exact hholds

/-- What a statement records is what it computes. -/
theorem of_makes (hknown : List.Forall₂ (fun k eval => Evaluator.Follows eval k.2) tracers known)
    {st : Statement} {vars : List Var} (hmakes : Recorder.Makes settings tracers r st vars r')
    (harith : st.isArithmetic = true) (h : r.Follows A known held) :
    ∃ made, st.eval A settings known held r.counts = some (made, r'.counts) ∧
      (r'.holdAll vars).Follows A known (held ++ made) := by
  cases hmakes with
  | constant value => exact ⟨_, rfl, h.addConstant value⟩
  | draw dtype dims bytes =>
    exact ⟨_, rfl, addConstant (r := { r with counts := r.counts.draw })
      ⟨h.values, h.nextVar, h.constants, h.equations⟩ _⟩
  | @elementwise primitive lhs rhs a b shape left right fits =>
    rw [h.values] at left right
    obtain ⟨x, hx, hxtype, hxvalue⟩ := Operand.exists_eval? (A := A) left
    obtain ⟨y, hy, hytype, hyvalue⟩ := Operand.exists_eval? (A := A) right
    obtain ⟨op, hop⟩ := Option.isSome_iff_exists.1 harith
    obtain ⟨f, hf, -⟩ := A.exists_of_operation? hop
    refine ⟨[⟨f x.value y.value, ⟨shape, x.type.dtype⟩⟩], ?_, ?_⟩
    · simp [Statement.eval, hx, hy, hf, hxtype, hytype, fits, Recording.addEquation]
    · rw [← hxtype]
      refine @addEquation _ _ _ _ [⟨f x.value y.value, ⟨shape, x.type.dtype⟩⟩] _ h _ _ _
        (.primitive rfl hf rfl rfl (Atom.value?_mono (heldValue_append _) _ _ hxvalue)
          (Atom.value?_mono (heldValue_append _) _ _ hyvalue) ?_)
      simp [heldValue]
  | bind primitive types params operands => simp [Statement.isArithmetic] at harith
  | @call index counts args atoms name tracer inner operands callee trace =>
    rw [h.values] at operands
    obtain ⟨xs, hxs, htypes, hvalues⟩ := exists_mapM_eval? (A := A) operands
    obtain ⟨eval, heval, hfollows⟩ := exists_of_forall₂ hknown callee
    obtain ⟨results, hresults, hrtypes⟩ := hfollows trace xs htypes
    refine ⟨results, by simp [Statement.eval, hxs, heval, hresults, Recording.addEquation], ?_⟩
    rw [← hrtypes]
    refine addEquation (r := { r with counts })
      ⟨h.values, h.nextVar, h.constants, h.equations⟩ (.call rfl heval htypes
      (map_eq_map_some_mono (Atom.value?_mono (heldValue_append _)) hvalues) hresults ?_)
    exact map_heldValue_freshVars held results
  | foreign v => simp [Statement.isArithmetic] at harith

theorem of_statements
    (hknown : List.Forall₂ (fun k eval => Evaluator.Follows eval k.2) tracers known)
    {body : List Statement} {u : Unit}
    (hbody : Recorder.statements settings tracers body r = .ok (u, r'))
    (harith : body.all Statement.isArithmetic = true) (h : r.Follows A known held) :
    ∃ made, evalStatements A settings known body held r.counts = some (held ++ made, r'.counts) ∧
      r'.Follows A known (held ++ made) := by
  induction body generalizing r held with
  | nil =>
    obtain ⟨-, rfl⟩ := Recorder.pure_eq_ok.1 hbody
    exact ⟨[], by simp [evalStatements], by simpa using h⟩
  | cons st rest ih =>
    rw [List.all_cons, Bool.and_eq_true] at harith
    obtain ⟨vars, r₁, hst, hrest⟩ := Recorder.statements_cons_eq_ok.1 hbody
    obtain ⟨made, hmade, h₁⟩ := h.of_makes hknown (Recorder.makes_of_statement hst) harith.1
    obtain ⟨more, hmore, h'⟩ := ih hrest harith.2 h₁
    rw [List.append_assoc] at hmore h'
    refine ⟨made ++ more, ?_, h'⟩
    simp only [evalStatements, hmade, Option.bind_eq_bind, Option.bind_some, ← hmore]
    rfl

theorem start {types : List AbstractValue} {args : List (TypedValue V)}
    (hargs : args.map TypedValue.type = types) (counts : Counts) :
    (Recording.start types counts).Follows A known args where
  values := by rw [hargs]; rfl
  nextVar := by simp [Recording.start, ← hargs]
  constants := by simp [Recording.start]
  equations := by simp [Recording.start]

end Recording.Follows

namespace Callable

variable {c : Callable} {types : List AbstractValue} {counts counts' : Counts} {t : Trace}

/-- Where a callable can be traced it can be evaluated, and the trace holds of the values. -/
theorem exists_eval (hknown : List.Forall₂ (fun k eval => Evaluator.Follows eval k.2) tracers known)
    (harith : c.IsArithmetic) (h : c.tracer settings tracers types counts = .ok (t, counts'))
    {args : List (TypedValue V)} (hargs : args.map TypedValue.type = types) :
    ∃ results ν, c.eval A settings known args counts = some (results, counts') ∧
      results.map TypedValue.type = t.outputs.map Atom.type ∧
      t.Holds A known ν (args.map TypedValue.value) (results.map TypedValue.value) := by
  obtain ⟨harity, r, hbody, hresults, -, hinputs, hconstants, hequations, rfl⟩ := tracer_eq_ok.1 h
  obtain ⟨made, hmade, hr⟩ := Recording.Follows.of_statements (A := A) hknown hbody
    (harith types counts.runs) (.start hargs counts)
  rw [hr.values] at hresults
  obtain ⟨results, heval, htypes, hvalues⟩ := exists_mapM_eval? (A := A) hresults
  have hlength : args.length = types.length := by simp [← hargs]
  refine ⟨results, heldValue (args ++ made), ?_, htypes, ?_, ?_, ?_, hvalues⟩
  · have hstart : (Recording.start types counts).counts = counts.run := rfl
    rw [hstart] at hmade
    simp [eval, hargs, hlength, harity, hmade, heval, Except.toOption]
  · rw [hinputs, ← hargs]
    exact map_eq_map_some_mono (fun v : Var => heldValue_append made v.id)
      (map_heldValue_freshVars [] args)
  · rw [hconstants]
    exact hr.constants
  · rw [hequations]
    exact hr.equations

theorem follows_eval (A : Arithmetic V)
    (hknown : List.Forall₂ (fun k eval => Evaluator.Follows eval k.2) tracers known)
    (harith : c.IsArithmetic) :
    Evaluator.Follows (c.eval A settings known) (c.tracer settings tracers) := by
  intro types counts t counts' h args hargs
  obtain ⟨results, -, heval, htypes, -⟩ := exists_eval (A := A) hknown harith h hargs
  exact ⟨results, heval, htypes⟩

end Callable

/-- The evaluators of a program follow its tracers. -/
theorem Program.evaluators_follow (A : Arithmetic V) (settings : Params) {program : Program}
    (harith : ∀ c ∈ program, c.IsArithmetic) :
    List.Forall₂ (fun k eval => Evaluator.Follows eval k.2) (program.tracers settings)
      (program.evaluators A settings) := by
  induction program using List.reverseRecOn with
  | nil => exact .nil
  | append_singleton program c ih =>
    have hprogram := ih fun c hc => harith c (List.mem_append_left _ hc)
    rw [tracers_append_singleton, evaluators_append_singleton]
    exact forall₂_append_singleton hprogram (Callable.follows_eval A hprogram (harith c (by simp)))

end Follow

end TensorGraph
