import Mathlib.Data.List.Induction
import Mathlib.Data.List.Nodup
import TensorGraph.Proofs.Translation

/-!
# What recording does

A statement that is recorded makes variables with new numbers and adds at most one constant or one
equation (`Recorder.Makes`). Whatever every statement keeps, a whole recording keeps
(`Recorder.statements_invariant`). Two facts about all traces follow : no number is used twice and
inputs have the types that the callable is traced on (`Callable.tracer_spec`).
-/

namespace TensorGraph

/-! ## Successful steps -/

theorem exceptBind_eq_ok {ε α β : Type} {x : Except ε α} {f : α → Except ε β} {b : β} :
    (x >>= f) = .ok b ↔ ∃ a, x = .ok a ∧ f a = .ok b := by
  cases x <;> simp [bind, Except.bind]

theorem exists_ok_of_isOk {ε α : Type} {x : Except ε α} (h : x.isOk = true) : ∃ a, x = .ok a := by
  cases x with
  | error e => simp [Except.isOk, Except.toBool] at h
  | ok a => exact ⟨a, rfl⟩

theorem eq_ok_of_toOption {ε α : Type} {x : Except ε α} {a : α} (h : x.toOption = some a) :
    x = .ok a := by
  cases x with
  | error e => cases h
  | ok b => exact congrArg Except.ok (Option.some.inj h)

namespace Recorder

variable {α β : Type} {r r' : Recording}

theorem bind_eq_ok {x : Recorder α} {f : α → Recorder β} {b : β × Recording} :
    (x >>= f) r = .ok b ↔ ∃ a r', x r = .ok (a, r') ∧ f a r' = .ok b := by
  simp only [Bind.bind, StateT.bind, Except.bind]
  cases x r with
  | error e => simp
  | ok p =>
    constructor
    · exact fun h => ⟨p.1, p.2, rfl, h⟩
    · rintro ⟨a, r', h, hf⟩
      cases h
      exact hf

theorem pure_eq_ok {a b : α} : (pure a : Recorder α) r = .ok (b, r') ↔ b = a ∧ r' = r := by
  change Except.ok (a, r) = .ok (b, r') ↔ b = a ∧ r' = r
  simp only [Except.ok.injEq, Prod.mk.injEq]
  constructor <;> rintro ⟨rfl, rfl⟩ <;> exact ⟨rfl, rfl⟩

theorem get_bind_eq_ok {f : Recording → Recorder β} {b : β × Recording} :
    ((get : Recorder Recording) >>= f) r = .ok b ↔ f r r = .ok b := Iff.rfl

theorem modify_eq_ok {f : Recording → Recording} {u : PUnit} :
    (modify f : Recorder PUnit) r = .ok (u, r') ↔ r' = f r := by
  simp only [modify, modifyGet, MonadStateOf.modifyGet, StateT.modifyGet, pure, Except.pure,
    Except.ok.injEq, Prod.mk.injEq, true_and]
  exact eq_comm

theorem throw_eq_ok {e : Failure} {b : α × Recording} :
    (throw e : Recorder α) r = .ok b ↔ False := by
  simp [throw, throwThe, MonadExceptOf.throw, StateT.lift, Bind.bind, Except.bind]

end Recorder

/-! ## Operands -/

/-- The atom of an operand, where the callable holds the variables `values`. -/
def Operand.atom? (settings : Params) (values : List Var) : Operand → Option Atom
  | .value index => values[index]?.map .var
  | .literal dtype x => some (.literal (.scalar dtype x))
  | .literalLike index x => values[index]?.map fun v => .literal (.scalar v.type.dtype x)
  | .tensor t => some (.literal t)
  | .param dtype key =>
    some (.literal (.scalar dtype (match settings.lookup key with
      | some p => p.number
      | none => .ofInt (-1))))

namespace Recorder

variable {settings : Params} {r r' : Recording}

theorem valueAt_eq_ok {index : Nat} {v : Var} :
    valueAt index r = .ok (v, r') ↔ r.values[index]? = some v ∧ r' = r := by
  simp only [valueAt, get_bind_eq_ok]
  cases h : r.values[index]? with
  | none => simp [throw_eq_ok]
  | some w =>
    simp only [pure_eq_ok, Option.some.injEq]
    constructor <;> rintro ⟨rfl, rfl⟩ <;> exact ⟨rfl, rfl⟩

theorem operand_eq_ok {o : Operand} {a : Atom} :
    operand settings o r = .ok (a, r') ↔ o.atom? settings r.values = some a ∧ r' = r := by
  cases o with
  | value index =>
    simp only [operand, bind_eq_ok, valueAt_eq_ok, pure_eq_ok, Operand.atom?,
      Option.map_eq_some_iff]
    constructor
    · rintro ⟨v, _, ⟨hv, rfl⟩, rfl, rfl⟩
      exact ⟨⟨v, hv, rfl⟩, rfl⟩
    · rintro ⟨⟨v, hv, rfl⟩, rfl⟩
      exact ⟨v, r', ⟨hv, rfl⟩, rfl, rfl⟩
  | literalLike index value =>
    simp only [operand, bind_eq_ok, valueAt_eq_ok, pure_eq_ok, Operand.atom?,
      Option.map_eq_some_iff]
    constructor
    · rintro ⟨v, _, ⟨hv, rfl⟩, rfl, rfl⟩
      exact ⟨⟨v, hv, rfl⟩, rfl⟩
    · rintro ⟨⟨v, hv, rfl⟩, rfl⟩
      exact ⟨v, r', ⟨hv, rfl⟩, rfl, rfl⟩
  | literal dtype value =>
    simp only [operand, pure_eq_ok, Operand.atom?, Option.some.injEq, @eq_comm _ a]
  | tensor value => simp only [operand, pure_eq_ok, Operand.atom?, Option.some.injEq, @eq_comm _ a]
  | param dtype key =>
    refine pure_eq_ok.trans (and_congr_left fun _ => ?_)
    rw [Operand.atom?, Option.some.injEq]
    exact eq_comm

theorem operands_eq_ok {os : List Operand} {atoms : List Atom} :
    os.mapM (operand settings) r = .ok (atoms, r') ↔
      os.map (Operand.atom? settings r.values) = atoms.map some ∧ r' = r := by
  induction os generalizing r r' atoms with
  | nil => simp [pure_eq_ok]
  | cons o rest ih =>
    simp only [List.mapM_cons, bind_eq_ok, operand_eq_ok, ih, pure_eq_ok, List.map_cons]
    constructor
    · rintro ⟨a, _, ⟨ha, rfl⟩, as, _, ⟨has, rfl⟩, rfl, rfl⟩
      exact ⟨by rw [ha, has, List.map_cons], rfl⟩
    · rintro ⟨h, rfl⟩
      cases atoms with
      | nil => simp at h
      | cons a as =>
        simp only [List.map_cons, List.cons.injEq] at h
        exact ⟨a, r', ⟨h.1, rfl⟩, as, r', ⟨h.2, rfl⟩, rfl, rfl⟩

end Recorder

/-! ## Statements -/

/-- Variables with these types and with numbers from `next` on. -/
def freshVars (next : Nat) (types : List AbstractValue) : List Var :=
  (types.zipIdx next).map fun p => ⟨p.2, p.1⟩

theorem freshVars_cons (next : Nat) (type : AbstractValue) (types : List AbstractValue) :
    freshVars next (type :: types) = ⟨next, type⟩ :: freshVars (next + 1) types := rfl

@[simp] theorem length_freshVars (next : Nat) (types : List AbstractValue) :
    (freshVars next types).length = types.length := by
  simp [freshVars]

@[simp] theorem map_type_freshVars (next : Nat) (types : List AbstractValue) :
    (freshVars next types).map Var.type = types := by
  induction types generalizing next with
  | nil => rfl
  | cons type types ih => rw [freshVars_cons, List.map_cons, ih]

theorem map_id_freshVars (next : Nat) (types : List AbstractValue) :
    (freshVars next types).map Var.id = List.range' next types.length := by
  induction types generalizing next with
  | nil => rfl
  | cons type types ih => rw [freshVars_cons, List.map_cons, ih, List.length_cons, List.range'_succ]

namespace Recording

/-- The variable of a constant that is captured next. -/
def constantVar (r : Recording) (value : Tensor) : Var :=
  ⟨r.nextVar, value.type⟩

/-- Capture a constant. -/
def addConstant (r : Recording) (value : Tensor) : Recording :=
  { r with nextVar := r.nextVar + 1, constants := r.constants ++ [(r.constantVar value, value)] }

/-- Add an equation with new variables for its outputs. -/
def addEquation (r : Recording) (primitive : String) (inputs : List Atom)
    (types : List AbstractValue) (params : Params) : Recording :=
  { r with
    nextVar := r.nextVar + types.length
    equations :=
      r.equations ++ [{ primitive, inputs, outputs := freshVars r.nextVar types, params }] }

/-- Hold variables. -/
def holdAll (r : Recording) (made : List Var) : Recording :=
  { r with values := r.values ++ made }

end Recording

namespace Recorder

variable {settings : Params} {known : List (String × Tracer)} {r r' : Recording}

/-- What a statement that is recorded makes and leaves behind. -/
inductive Makes (settings : Params) (known : List (String × Tracer)) (r : Recording) :
    Statement → List Var → Recording → Prop where
  | constant (value : Tensor) :
      Makes settings known r (.constant value) [r.constantVar value] (r.addConstant value)
  | draw (dtype : DType) (dims : List Nat) (bytes : Nat → List UInt8) :
      Makes settings known r (.draw dtype dims bytes)
        [r.constantVar ⟨dtype, dims, bytes r.counts.drawn⟩]
        (Recording.addConstant { r with counts := r.counts.draw }
          ⟨dtype, dims, bytes r.counts.drawn⟩)
  | elementwise (primitive : String) {lhs rhs : Operand} {a b : Atom} {shape : List Dim}
      (left : lhs.atom? settings r.values = some a) (right : rhs.atom? settings r.values = some b)
      (fits : broadcast? a.type.shape b.type.shape = some shape) :
      Makes settings known r (.elementwise primitive lhs rhs)
        (freshVars r.nextVar [⟨shape, a.type.dtype⟩])
        (r.addEquation primitive [a, b] [⟨shape, a.type.dtype⟩] [])
  | bind (primitive : String) {inputs : List Operand} {atoms : List Atom}
      (types : List AbstractValue) (params : Params)
      (operands : inputs.map (Operand.atom? settings r.values) = atoms.map some) :
      Makes settings known r (.bind primitive inputs types params) (freshVars r.nextVar types)
        (r.addEquation primitive atoms types (Keyed.ofList params))
  | call {index : Nat} {counts : Counts} {args : List Operand} {atoms : List Atom} {name : String}
      {tracer : Tracer} {inner : Trace}
      (operands : args.map (Operand.atom? settings r.values) = atoms.map some)
      (callee : known[index]? = some (name, tracer))
      (trace : tracer (atoms.map Atom.type) r.counts = .ok (inner, counts)) :
      Makes settings known r (.call index args) (freshVars r.nextVar (inner.outputs.map Atom.type))
        (Recording.addEquation { r with counts } callPrimitive atoms (inner.outputs.map Atom.type)
          [(callableKey, .callable index), ("name", .str name)])
  | foreign (v : Var) : Makes settings known r (.foreign v) [v] r

theorem freshVars_eq_ok {types : List AbstractValue} {vs : List Var} :
    types.mapM freshVar r = .ok (vs, r') ↔
      vs = freshVars r.nextVar types ∧ r' = { r with nextVar := r.nextVar + types.length } := by
  induction types generalizing r r' vs with
  | nil => simp [pure_eq_ok, freshVars]
  | cons type types ih =>
    simp only [List.mapM_cons, bind_eq_ok, ih, pure_eq_ok, freshVar, Except.ok.injEq, Prod.mk.injEq,
      freshVars_cons]
    constructor
    · rintro ⟨_, _, ⟨rfl, rfl⟩, _, _, ⟨rfl, rfl⟩, rfl, rfl⟩
      exact ⟨rfl, by simp [Nat.add_comm, Nat.add_left_comm]⟩
    · rintro ⟨rfl, rfl⟩
      exact ⟨_, _, ⟨rfl, rfl⟩, _, _, ⟨rfl, rfl⟩, rfl, by simp [Nat.add_comm, Nat.add_left_comm]⟩

theorem constant_eq_ok {value : Tensor} {v : Var} :
    constant value r = .ok (v, r') ↔ v = r.constantVar value ∧ r' = r.addConstant value := by
  simp only [constant, bind_eq_ok, modify_eq_ok, pure_eq_ok, freshVar, Except.ok.injEq,
    Prod.mk.injEq]
  constructor
  · rintro ⟨_, _, ⟨rfl, rfl⟩, _, _, rfl, rfl, rfl⟩
    exact ⟨rfl, rfl⟩
  · rintro ⟨rfl, rfl⟩
    exact ⟨_, _, ⟨rfl, rfl⟩, (), _, rfl, rfl, rfl⟩

theorem bind_equation_eq_ok {primitive : String} {inputs : List Atom} {types : List AbstractValue}
    {params : Params} {vs : List Var} : bind primitive inputs types params r = .ok (vs, r') ↔
      vs = freshVars r.nextVar types ∧ r' = r.addEquation primitive inputs types params := by
  simp only [bind, bind_eq_ok, freshVars_eq_ok, modify_eq_ok, pure_eq_ok]
  constructor
  · rintro ⟨_, _, ⟨rfl, rfl⟩, _, _, rfl, rfl, rfl⟩
    exact ⟨rfl, rfl⟩
  · rintro ⟨rfl, rfl⟩
    exact ⟨_, _, ⟨rfl, rfl⟩, (), _, rfl, rfl, rfl⟩

theorem elementwise_eq_ok {primitive : String} {a b : Atom} {vs : List Var} :
    elementwise primitive a b r = .ok (vs, r') ↔ ∃ shape,
      broadcast? a.type.shape b.type.shape = some shape ∧
      vs = freshVars r.nextVar [⟨shape, a.type.dtype⟩] ∧
        r' = r.addEquation primitive [a, b] [⟨shape, a.type.dtype⟩] [] := by
  unfold elementwise
  cases broadcast? a.type.shape b.type.shape with
  | none => simp [throw_eq_ok]
  | some shape => simp [bind_equation_eq_ok]

theorem call_eq_ok {index : Nat} {atoms : List Atom} {vs : List Var} :
    call known index atoms r = .ok (vs, r') ↔ ∃ name tracer inner counts,
      known[index]? = some (name, tracer) ∧
      tracer (atoms.map Atom.type) r.counts = .ok (inner, counts) ∧
      vs = freshVars r.nextVar (inner.outputs.map Atom.type) ∧
      r' = Recording.addEquation { r with counts } callPrimitive atoms (inner.outputs.map Atom.type)
        [(callableKey, .callable index), ("name", .str name)] := by
  simp only [call, bind_eq_ok, bind_equation_eq_ok, knownAt, runTracer]
  cases known[index]? with
  | none => simp [throw_eq_ok]
  | some entry =>
    obtain ⟨name, tracer⟩ := entry
    simp only [pure_eq_ok, Option.some.injEq, Prod.mk.injEq]
    constructor
    · rintro ⟨_, r, ⟨rfl, rfl⟩, inner, r₁, htrace, rfl, rfl⟩
      cases hrun : tracer (atoms.map Atom.type) r.counts with
      | error e => simp [hrun] at htrace
      | ok p =>
        obtain ⟨t, counts⟩ := p
        simp only [hrun, Except.ok.injEq, Prod.mk.injEq] at htrace
        obtain ⟨rfl, rfl⟩ := htrace
        exact ⟨_, _, _, _, ⟨rfl, rfl⟩, hrun, rfl, rfl⟩
    · rintro ⟨_, _, inner, counts, ⟨rfl, rfl⟩, htrace, rfl, rfl⟩
      exact ⟨_, _, ⟨rfl, rfl⟩, inner, { r with counts }, by simp [htrace], rfl, rfl⟩

/-- A recorded statement does what `Makes` says. -/
theorem makes_of_statement {st : Statement} {made : List Var}
    (h : statement settings known st r = .ok (made, r')) :
    Makes settings known r st made r' := by
  cases st with
  | constant value =>
    simp only [statement, bind_eq_ok, constant_eq_ok, pure_eq_ok] at h
    obtain ⟨_, _, ⟨rfl, rfl⟩, rfl, rfl⟩ := h
    exact .constant value
  | draw dtype dims bytes =>
    simp only [statement, get_bind_eq_ok] at h
    simp only [bind_eq_ok, modify_eq_ok, constant_eq_ok, pure_eq_ok] at h
    obtain ⟨_, _, rfl, _, _, ⟨rfl, rfl⟩, rfl, rfl⟩ := h
    exact .draw dtype dims bytes
  | elementwise primitive lhs rhs =>
    simp only [statement, bind_eq_ok, operand_eq_ok, elementwise_eq_ok] at h
    obtain ⟨a, _, ⟨ha, rfl⟩, b, _, ⟨hb, rfl⟩, shape, hshape, rfl, rfl⟩ := h
    exact .elementwise primitive ha hb hshape
  | bind primitive inputs types params =>
    simp only [statement, bind_eq_ok, operands_eq_ok, bind_equation_eq_ok] at h
    obtain ⟨atoms, _, ⟨hatoms, rfl⟩, rfl, rfl⟩ := h
    exact .bind primitive types params hatoms
  | call index args =>
    simp only [statement, bind_eq_ok, operands_eq_ok, call_eq_ok] at h
    obtain ⟨atoms, _, ⟨hatoms, rfl⟩, name, tracer, inner, counts, hknown, htrace, rfl, rfl⟩ := h
    exact .call hatoms hknown htrace
  | foreign v =>
    simp only [statement, pure_eq_ok] at h
    obtain ⟨rfl, rfl⟩ := h
    exact .foreign v
  | fail failure => exact (throw_eq_ok.1 h).elim

/-- Whatever `Makes` says can be recorded. -/
theorem statement_of_makes {st : Statement} {made : List Var}
    (h : Makes settings known r st made r') :
    statement settings known st r = .ok (made, r') := by
  cases h with
  | constant value =>
    simp only [statement, bind_eq_ok, constant_eq_ok, pure_eq_ok]
    exact ⟨_, _, ⟨rfl, rfl⟩, rfl, rfl⟩
  | draw dtype dims bytes =>
    simp only [statement, get_bind_eq_ok]
    simp only [bind_eq_ok, modify_eq_ok, constant_eq_ok, pure_eq_ok]
    exact ⟨(), _, rfl, _, _, ⟨rfl, rfl⟩, rfl, rfl⟩
  | elementwise primitive left right fits =>
    simp only [statement, bind_eq_ok, operand_eq_ok, elementwise_eq_ok]
    exact ⟨_, r, ⟨left, rfl⟩, _, r, ⟨right, rfl⟩, _, fits, rfl, rfl⟩
  | bind primitive types params operands =>
    simp only [statement, bind_eq_ok, operands_eq_ok, bind_equation_eq_ok]
    exact ⟨_, r, ⟨operands, rfl⟩, rfl, rfl⟩
  | call operands callee trace =>
    simp only [statement, bind_eq_ok, operands_eq_ok, call_eq_ok]
    exact ⟨_, r, ⟨operands, rfl⟩, _, _, _, _, callee, trace, rfl, rfl⟩
  | foreign v => exact pure_eq_ok.2 ⟨rfl, rfl⟩

theorem forM_hold_eq_ok {made : List Var} {u : PUnit} :
    made.forM hold r = .ok (u, r') ↔ r' = r.holdAll made := by
  induction made generalizing r with
  | nil => simp [List.forM, pure_eq_ok, Recording.holdAll]
  | cons v rest ih =>
    simp only [List.forM, bind_eq_ok, ih, hold, modify_eq_ok]
    constructor
    · rintro ⟨_, _, rfl, rfl⟩
      simp [Recording.holdAll]
    · rintro rfl
      exact ⟨(), _, rfl, by simp [Recording.holdAll]⟩

theorem statements_cons_eq_ok {st : Statement} {rest : List Statement} {u : Unit} :
    statements settings known (st :: rest) r = .ok (u, r') ↔ ∃ made r₁,
      statement settings known st r = .ok (made, r₁) ∧
      statements settings known rest (r₁.holdAll made) = .ok (u, r') := by
  simp only [statements, bind_eq_ok, forM_hold_eq_ok]
  constructor
  · rintro ⟨made, r₁, hmade, _, _, rfl, h⟩
    exact ⟨made, r₁, hmade, h⟩
  · rintro ⟨made, r₁, hmade, h⟩
    exact ⟨made, r₁, hmade, (), _, rfl, h⟩

/-- What every recorded statement keeps, recorded statements keep. -/
theorem statements_invariant {P : Recording → Prop} {body : List Statement} {u : Unit}
    (step : ∀ st ∈ body, ∀ r made r', Makes settings known r st made r' → P r → P (r'.holdAll made))
    (h : statements settings known body r = .ok (u, r')) (hr : P r) : P r' := by
  induction body generalizing r with
  | nil =>
    obtain ⟨-, rfl⟩ := pure_eq_ok.1 h
    exact hr
  | cons st rest ih =>
    obtain ⟨made, r₁, hmade, hrest⟩ := statements_cons_eq_ok.1 h
    exact ih (fun st hst => step st (List.mem_cons_of_mem _ hst)) hrest
      (step st List.mem_cons_self _ _ _ (makes_of_statement hmade) hr)

end Recorder

/-! ## Traces -/

namespace Recording

/-- The numbers of the variables that inputs, constants and equations have. -/
def ids (inputs : List Var) (r : Recording) : List Nat :=
  inputs.map Var.id ++ r.constants.map (fun c => c.1.id) ++ madeBy r.equations

/-- Before a callable is traced. -/
def start (types : List AbstractValue) (counts : Counts) : Recording :=
  ⟨types.length, [], [], freshVars 0 types, counts.run⟩

/-- The numbers below `nextVar` are used, each once, and constants have theirs in order. -/
structure Numbered (inputs : List Var) (r : Recording) : Prop where
  perm : (r.ids inputs).Perm (List.range r.nextVar)
  ascending : (r.constants.map fun c => c.1.id).Pairwise (· < ·)

variable {inputs : List Var} {r : Recording}

theorem Numbered.below (h : r.Numbered inputs) {id : Nat} (hid : id ∈ r.ids inputs) :
    id < r.nextVar :=
  List.mem_range.1 (h.perm.mem_iff.1 hid)

theorem Numbered.addConstant (h : r.Numbered inputs) (value : Tensor) :
    (r.addConstant value).Numbered inputs := by
  have hperm : ((r.addConstant value).ids inputs).Perm (r.ids inputs ++ [r.nextVar]) := by
    simp only [ids, Recording.addConstant, constantVar, List.map_append, List.map_cons,
      List.map_nil, List.append_assoc]
    exact (List.perm_append_comm.append_left _).append_left _
  constructor
  · refine hperm.trans ((h.perm.append_right [r.nextVar]).trans ?_)
    rw [← List.range_succ]
    exact .refl _
  · simp only [Recording.addConstant, constantVar, List.map_append, List.map_cons, List.map_nil]
    refine List.pairwise_append.2 ⟨h.ascending, List.pairwise_singleton _ _, ?_⟩
    intro id hid next hnext
    rw [List.mem_singleton.1 hnext]
    exact h.below (List.mem_append_left _ (List.mem_append_right _ hid))

theorem Numbered.addEquation (h : r.Numbered inputs) (primitive : String) (atoms : List Atom)
    (types : List AbstractValue) (params : Params) :
    (r.addEquation primitive atoms types params).Numbered inputs := by
  have hids : (r.addEquation primitive atoms types params).ids inputs =
      r.ids inputs ++ List.range' r.nextVar types.length := by
    simp only [ids, Recording.addEquation, madeBy, List.flatMap_append, List.flatMap_cons,
      List.flatMap_nil, List.append_nil, map_id_freshVars, List.append_assoc]
  refine ⟨?_, h.ascending⟩
  have hrange : List.range (r.nextVar + types.length) =
      List.range r.nextVar ++ List.range' r.nextVar types.length := by
    rw [List.range_eq_range', List.range_eq_range', ← List.range'_append_1, Nat.zero_add]
  rw [hids]
  exact (h.perm.append_right _).trans (hrange ▸ .refl _)

theorem Numbered.of_makes {settings : Params} {known : List (String × Tracer)} {r' : Recording}
    {st : Statement} {made : List Var} (hmakes : Recorder.Makes settings known r st made r')
    (h : r.Numbered inputs) :
    (r'.holdAll made).Numbered inputs := by
  suffices r'.Numbered inputs from ⟨this.perm, this.ascending⟩
  cases hmakes with
  | constant value => exact h.addConstant value
  | draw dtype dims bytes =>
    exact addConstant (r := { r with counts := r.counts.draw }) ⟨h.perm, h.ascending⟩ _
  | elementwise primitive left right fits => exact h.addEquation ..
  | bind primitive types params operands => exact h.addEquation ..
  | @call index counts args atoms name tracer inner operands callee trace =>
    exact addEquation (r := { r with counts }) ⟨h.perm, h.ascending⟩ ..
  | foreign v => exact h

theorem numbered_start (types : List AbstractValue) (counts : Counts) :
    (start types counts).Numbered (freshVars 0 types) := by
  have hids : (start types counts).ids (freshVars 0 types) = List.range' 0 types.length := by
    simp [ids, start, madeBy, map_id_freshVars]
  refine ⟨?_, List.Pairwise.nil⟩
  rw [hids, ← List.range_eq_range']
  exact .refl _

end Recording

namespace Recorder

theorem stranger?_eq_none_iff {r : Recording} {inputs : List Var} {outputs : List Atom} :
    stranger? r inputs outputs = none ↔ ∀ a ∈ outputs, a.IsKnown (r.ids inputs) := by
  simp only [stranger?, List.findSome?_eq_none_iff]
  refine forall₂_congr fun a _ => ?_
  cases a with
  | literal t => simp [Atom.IsKnown]
  | var v =>
    simp only [Atom.IsKnown, Recording.ids, madeBy, List.contains_iff_mem]
    split
    · next h => simpa using h
    · next h => simpa using h

end Recorder

namespace Callable

variable {settings : Params} {known : List (String × Tracer)} {c : Callable}
  {types : List AbstractValue} {counts counts' : Counts} {t : Trace}

/-- A trace is what the statements and the results of the callable record. -/
theorem tracer_eq_ok : c.tracer settings known types counts = .ok (t, counts') ↔
    c.checkArity types.length = .ok () ∧ ∃ r,
      Recorder.statements settings known (c.body types counts.runs) (.start types counts) =
        .ok ((), r) ∧
      (c.results types counts.runs).map (Operand.atom? settings r.values) = t.outputs.map some ∧
      (∀ a ∈ t.outputs, a.IsKnown (r.ids t.inputs)) ∧
      t.inputs = freshVars 0 types ∧ t.constants = r.constants ∧ t.equations = r.equations ∧
      counts' = r.counts := by
  have hrun : ∀ {body : List Statement} {results : List Operand} {outputs : List Atom}
      {r r' : Recording},
      (do Recorder.statements settings known body
          results.mapM (Recorder.operand settings) : Recorder _) r = .ok (outputs, r') ↔
        Recorder.statements settings known body r = .ok ((), r') ∧
          results.map (Operand.atom? settings r'.values) = outputs.map some := by
    intro body results outputs r r'
    simp only [Recorder.bind_eq_ok, Recorder.operands_eq_ok]
    constructor
    · rintro ⟨_, r', hbody, hresults, rfl⟩
      exact ⟨hbody, hresults⟩
    · rintro ⟨hbody, hresults⟩
      exact ⟨(), r', hbody, hresults, rfl⟩
  simp only [tracer]
  generalize hinputs : types.zipIdx.map _ = inputs
  obtain rfl : inputs = freshVars 0 types := hinputs.symm
  simp only [length_freshVars, exceptBind_eq_ok]
  constructor
  · rintro ⟨_, harity, ⟨outputs, r⟩, hbody, hresult⟩
    obtain ⟨hbody, houtputs⟩ := hrun.1 hbody
    cases hstranger : Recorder.stranger? r (freshVars 0 types) outputs with
    | some v => simp [hstranger, throw, throwThe, MonadExceptOf.throw] at hresult
    | none =>
      simp only [hstranger, pure, Except.pure, Except.ok.injEq, Prod.mk.injEq] at hresult
      obtain ⟨rfl, rfl⟩ := hresult
      exact ⟨harity, r, hbody, houtputs, Recorder.stranger?_eq_none_iff.1 hstranger, rfl, rfl,
        rfl, rfl⟩
  · rintro ⟨harity, r, hbody, houtputs, hknown, hin, hconstants, hequations, rfl⟩
    refine ⟨(), harity, (t.outputs, r), hrun.2 ⟨hbody, houtputs⟩, ?_⟩
    simp only [← hin, ← hconstants, ← hequations, Recorder.stranger?_eq_none_iff.2 hknown]
    rfl

/-- The variables of a trace have the first numbers, and its constants have theirs in order. -/
theorem numbered_tracer (h : c.tracer settings known types counts = .ok (t, counts')) :
    (∃ n, (t.given ++ madeBy t.equations).Perm (List.range n)) ∧
      (t.constants.map fun c => c.1.id).Pairwise (· < ·) := by
  obtain ⟨-, r, hbody, -, -, hinputs, hconstants, hequations, -⟩ := tracer_eq_ok.1 h
  have hr := Recorder.statements_invariant (fun st _ _ _ _ => Recording.Numbered.of_makes) hbody
    (Recording.numbered_start types counts)
  rw [Trace.given, hinputs, hconstants, hequations]
  exact ⟨⟨_, hr.perm⟩, hr.ascending⟩

/-- The facts about a trace that do not depend on the statements. -/
theorem tracer_spec (h : c.tracer settings known types counts = .ok (t, counts')) :
    t.inputs = freshVars 0 types ∧ (t.given ++ madeBy t.equations).Nodup ∧
      ∀ a ∈ t.outputs, a.IsKnown (t.given ++ madeBy t.equations) := by
  obtain ⟨-, r, -, -, hknown, hinputs, hconstants, hequations, -⟩ := tracer_eq_ok.1 h
  obtain ⟨⟨n, hperm⟩, -⟩ := numbered_tracer h
  refine ⟨hinputs, hperm.nodup_iff.2 List.nodup_range, ?_⟩
  rw [Trace.given, hconstants, hequations]
  exact hknown

end Callable

/-! ## Repeated traces -/

/-- The trace on given types is the same, whatever was run and drawn before. -/
def Tracer.Repeats (tracer : Tracer) : Prop :=
  ∀ ⦃types counts t counts'⦄, tracer types counts = .ok (t, counts') →
    ∀ other, ∃ other', tracer types other = .ok (t, other')

/-- Does the callable take the same steps in every run on given types? -/
def Callable.IsUniform (c : Callable) : Prop :=
  ∀ types run run', c.body types run = c.body types run' ∧
    c.results types run = c.results types run'

theorem Callable.isUniform_fixed (name : String) (arity : Option Arity) (body : List Statement)
    (results : List Operand) : (fixed name arity body results).IsUniform :=
  fun _ _ _ => ⟨rfl, rfl⟩

/-- Does the callable take the same steps in every run, whatever the types of its arguments? -/
def Callable.IsFixed (c : Callable) : Prop :=
  ∀ types types' run run', c.body types run = c.body types' run' ∧
    c.results types run = c.results types' run'

theorem Callable.isFixed_fixed (name : String) (arity : Option Arity) (body : List Statement)
    (results : List Operand) : (fixed name arity body results).IsFixed :=
  fun _ _ _ _ => ⟨rfl, rfl⟩

theorem Callable.IsFixed.isUniform {c : Callable} (h : c.IsFixed) : c.IsUniform :=
  fun types run run' => h types types run run'

/-- Does the statement draw a constant? -/
def Statement.isDraw : Statement → Bool
  | .draw .. => true
  | _ => false

section Repeat

variable {settings : Params} {known : List (String × Tracer)} {r r' : Recording}

/-- A statement that draws nothing is recorded alike, whatever was run and drawn before. -/
theorem Recorder.Makes.repeats (hknown : ∀ k ∈ known, k.2.Repeats) {st : Statement}
    {made : List Var} (h : Makes settings known r st made r') (hst : st.isDraw = false)
    (other : Counts) : ∃ other',
      Makes settings known { r with counts := other } st made { r' with counts := other' } := by
  cases h with
  | constant value => exact ⟨other, .constant value⟩
  | draw dtype dims bytes => simp [Statement.isDraw] at hst
  | elementwise primitive left right fits => exact ⟨other, .elementwise primitive left right fits⟩
  | bind primitive types params operands => exact ⟨other, .bind primitive types params operands⟩
  | call operands callee trace =>
    obtain ⟨other', htrace⟩ := hknown _ (List.mem_of_getElem? callee) trace other
    exact ⟨other', .call (r := { r with counts := other }) operands callee htrace⟩
  | foreign v => exact ⟨other, .foreign v⟩

theorem Recorder.repeats_statements (hknown : ∀ k ∈ known, k.2.Repeats) {body : List Statement}
    (hbody : ∀ st ∈ body, st.isDraw = false) (h : statements settings known body r = .ok ((), r'))
    (other : Counts) : ∃ other', statements settings known body { r with counts := other } =
      .ok ((), { r' with counts := other' }) := by
  induction body generalizing r other with
  | nil =>
    obtain ⟨-, rfl⟩ := pure_eq_ok.1 h
    exact ⟨other, rfl⟩
  | cons st rest ih =>
    rw [List.forall_mem_cons] at hbody
    obtain ⟨made, r₁, hmade, hrest⟩ := statements_cons_eq_ok.1 h
    obtain ⟨other₁, hmakes⟩ := (makes_of_statement hmade).repeats hknown hbody.1 other
    obtain ⟨other', hrest'⟩ := ih hbody.2 hrest other₁
    exact ⟨other', statements_cons_eq_ok.2 ⟨made, _, statement_of_makes hmakes, hrest'⟩⟩

/-- A callable that takes the same steps in every run and draws nothing, and calls only such ones,
is traced alike. -/
theorem Callable.repeats_tracer (hknown : ∀ k ∈ known, k.2.Repeats) {c : Callable}
    (hc : c.IsUniform) (hdrawless : ∀ types run, ∀ st ∈ c.body types run, st.isDraw = false) :
    (c.tracer settings known).Repeats := by
  intro types counts t counts' h other
  obtain ⟨harity, r, hbody, hresults, hmade, hinputs, hconstants, hequations, -⟩ := tracer_eq_ok.1 h
  obtain ⟨hsteps, hreturns⟩ := hc types counts.runs other.runs
  obtain ⟨other', hbody'⟩ := Recorder.repeats_statements hknown
    (hdrawless types counts.runs) hbody other.run
  rw [hsteps] at hbody'
  rw [hreturns] at hresults
  exact ⟨other', tracer_eq_ok.2
    ⟨harity, _, hbody', hresults, hmade, hinputs, hconstants, hequations, rfl⟩⟩

end Repeat

/-! ## Tracers of programs -/

section Snoc

variable {α β : Type} (g : List β → α → β)

theorem length_foldl_snoc (as : List α) :
    (as.foldl (fun bs a => bs ++ [g bs a]) []).length = as.length := by
  induction as using List.reverseRecOn with
  | nil => rfl
  | append_singleton as a ih => simp [ih]

theorem foldl_snoc_isPrefix_append (as more : List α) :
    as.foldl (fun bs a => bs ++ [g bs a]) [] <+:
      (as ++ more).foldl (fun bs a => bs ++ [g bs a]) [] := by
  induction more using List.reverseRecOn with
  | nil => simp
  | append_singleton more a ih =>
    rw [← List.append_assoc, List.foldl_append]
    exact ih.trans (List.prefix_append _ _)

theorem foldl_snoc_take_isPrefix_self (as : List α) (i : Nat) :
    (as.take i).foldl (fun bs a => bs ++ [g bs a]) [] <+:
      as.foldl (fun bs a => bs ++ [g bs a]) [] := by
  have := foldl_snoc_isPrefix_append g (as.take i) (as.drop i)
  rwa [List.take_append_drop] at this

/-- Where each element is made from those before it, an element is made from those of the first part
of the list. -/
theorem getElem?_foldl_snoc {as : List α} {i : Nat} {a : α} (h : as[i]? = some a) :
    (as.foldl (fun bs a => bs ++ [g bs a]) [])[i]? =
      some (g ((as.take i).foldl (fun bs a => bs ++ [g bs a]) []) a) := by
  obtain ⟨hi, rfl⟩ := List.getElem?_eq_some_iff.1 h
  have hlength : ((as.take i).foldl (fun bs a => bs ++ [g bs a]) []).length = i := by
    rw [length_foldl_snoc, List.length_take_of_le (Nat.le_of_lt hi)]
  obtain ⟨more, hmore⟩ := foldl_snoc_take_isPrefix_self g as (i + 1)
  rw [← hmore, ← List.take_append_getElem hi, List.foldl_append, List.foldl_cons, List.foldl_nil,
    List.append_assoc, List.getElem?_append_right (Nat.le_of_eq hlength), hlength]
  simp

end Snoc

namespace Program

variable {settings : Params} {program : Program}

theorem length_tracers (settings : Params) (program : Program) :
    (program.tracers settings).length = program.length :=
  length_foldl_snoc (fun known (c : Callable) => (c.name, c.tracer settings known)) program

theorem getElem?_tracers {index : Nat} {c : Callable} (h : program[index]? = some c) :
    (program.tracers settings)[index]? =
      some (c.name, c.tracer settings (tracers settings (program.take index))) :=
  getElem?_foldl_snoc (fun known (c : Callable) => (c.name, c.tracer settings known)) h

/-- The tracer of a callable does not depend on the callables after it. -/
theorem tracer_of_append {before after : Program} (hprogram : program = before ++ after)
    {index : Nat} {c : Callable} (hc : program[index]? = some c) {name : String} {tracer : Tracer}
    (h : (tracers settings before)[index]? = some (name, tracer)) :
    tracer = c.tracer settings (tracers settings (program.take index)) := by
  have hindex : index < before.length := by
    rw [← length_tracers settings before]
    exact (List.getElem?_eq_some_iff.1 h).1
  subst hprogram
  rw [List.getElem?_append_left hindex] at hc
  rw [List.take_append_of_le_length (Nat.le_of_lt hindex)]
  rw [getElem?_tracers hc] at h
  exact (Prod.mk.inj (Option.some.inj h)).2.symm

/-- Callables record the same trace whenever they are traced on the same types, whatever was run and
drawn before. -/
def Repeatable (settings : Params) (program : Program) : Prop :=
  ∀ k ∈ program.tracers settings, k.2.Repeats

/-- A program whose callables take the same steps in every run and draw nothing is repeatable. -/
theorem repeatable_of_drawless (huniform : ∀ c ∈ program, c.IsUniform)
    (hdrawless : ∀ c ∈ program, ∀ types run, ∀ st ∈ c.body types run, st.isDraw = false) :
    program.Repeatable settings := by
  induction program using List.reverseRecOn with
  | nil => exact fun k hk => by simp [tracers] at hk
  | append_singleton program c ih =>
    have hknown := ih (fun c hc => huniform c (List.mem_append_left _ hc))
      fun c hc => hdrawless c (List.mem_append_left _ hc)
    intro k hk
    rw [tracers_append_singleton] at hk
    rcases List.mem_append.1 hk with hk | hk
    · exact hknown k hk
    · obtain rfl := List.mem_singleton.1 hk
      exact Callable.repeats_tracer hknown (huniform c (by simp)) (hdrawless c (by simp))

theorem Repeatable.dropLast (h : program.Repeatable settings) :
    Repeatable settings (List.dropLast program) := by
  intro k hk
  rw [List.dropLast_eq_take] at hk
  exact h k
    ((foldl_snoc_take_isPrefix_self (fun known (c : Callable) => (c.name, c.tracer settings known))
      program _).subset hk)

theorem Repeatable.exists_trace (h : program.Repeatable settings) {index : Nat}
    {counts counts' : Counts} {c : Callable} {types : List AbstractValue} {t : Trace}
    (hc : program[index]? = some c)
    (ht : c.tracer settings (tracers settings (program.take index)) types counts = .ok (t, counts'))
    (other : Counts) :
    ∃ other', c.tracer settings (tracers settings (program.take index)) types other =
      .ok (t, other') :=
  h _ (List.mem_of_getElem? (getElem?_tracers hc)) ht other

/-- A callable has one trace on given types. -/
theorem Repeatable.trace_unique (h : program.Repeatable settings) {index : Nat}
    {counts counts' other other' : Counts} {c : Callable} {types : List AbstractValue}
    {t t' : Trace} (hc : program[index]? = some c)
    (ht : c.tracer settings (tracers settings (program.take index)) types counts = .ok (t, counts'))
    (ht' : c.tracer settings (tracers settings (program.take index)) types other =
      .ok (t', other')) :
    t = t' := by
  obtain ⟨_, hother⟩ := h.exists_trace hc ht other
  exact (Prod.mk.inj (Except.ok.inj (hother.symm.trans ht'))).1

end Program

end TensorGraph
