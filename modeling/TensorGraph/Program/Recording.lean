import TensorGraph.Keyed
import TensorGraph.Program.Basic

/-!
# Tracing programs

A callable is traced by running its statements on variables. A call is recorded as one equation; the
callee is traced on the spot only to learn the types of its results. `Program.tracers` builds the
tracers of a program from the first callable to the last, so that each one is made from those it can
call.

The counts of runs and of `draw` statements are shared by all callables and go on from one trace to
the next.
-/

namespace TensorGraph

/-- What the callables of a conversion have done so far. -/
structure Counts where
  /-- The number of runs of callables. -/
  runs : Nat
  /-- The number of drawn constants. -/
  drawn : Nat
  deriving DecidableEq, Repr

namespace Counts

/-- Before anything is run. -/
def start : Counts := ⟨0, 0⟩

/-- Count a run. -/
def run (counts : Counts) : Counts :=
  { counts with runs := counts.runs + 1 }

/-- Count a drawn constant. -/
def draw (counts : Counts) : Counts :=
  { counts with drawn := counts.drawn + 1 }

end Counts

/-- Trace a callable on argument types, from given counts on; the counts are returned with the
trace. -/
abbrev Tracer := List AbstractValue → Counts → Except Failure (Trace × Counts)

/-- A trace in the making. -/
structure Recording where
  nextVar : Nat
  constants : List (Var × Tensor)
  equations : List Equation
  /-- The values that the callable holds. -/
  values : List Var
  counts : Counts

/-- A step of recording. -/
abbrev Recorder := StateT Recording (Except Failure)

/-- The number that stands for a parameter in a literal. -/
def ParamValue.number : ParamValue → Binary64
  | .int n => .ofInt n
  | .float x => x
  | .bool b => if b then .one else .zero
  | .str s => .ofInt s.utf8ByteSize
  | .ints ns => .ofInt ns.length
  | .callable _ => .ofInt (-1)

namespace Recorder

/-- Make a variable. -/
def freshVar (type : AbstractValue) : Recorder Var := fun r =>
  .ok (⟨r.nextVar, type⟩, { r with nextVar := r.nextVar + 1 })

/-- Hold a value. -/
def hold (v : Var) : Recorder Unit :=
  modify fun r => { r with values := r.values ++ [v] }

/-- A value that the callable holds. -/
def valueAt (index : Nat) : Recorder Var := do
  match (← get).values[index]? with
  | some v => return v
  | none => throw (.trace ("program has no value " ++ toString index))

/-- The atom of an operand. -/
def operand (settings : Params) : Operand → Recorder Atom
  | .value index => do return .var (← valueAt index)
  | .literal dtype value => return .literal (.scalar dtype value)
  | .literalLike index value => do return .literal (.scalar (← valueAt index).type.dtype value)
  | .tensor value => return .literal value
  | .param dtype key =>
    return .literal (.scalar dtype (match settings.lookup key with
      | some p => p.number
      | none => .ofInt (-1)))

/-- Capture a constant. -/
def constant (value : Tensor) : Recorder Var := do
  let v ← freshVar value.type
  modify fun r => { r with constants := r.constants ++ [(v, value)] }
  return v

/-- Apply a primitive with given output types. -/
def bind (primitive : String) (inputs : List Atom) (types : List AbstractValue) (params : Params) :
    Recorder (List Var) := do
  let outputs ← types.mapM freshVar
  modify fun r => { r with equations := r.equations ++ [{ primitive, inputs, outputs, params }] }
  return outputs

/-- Apply a primitive to two operands. The result has the broadcast shape and the element type of
the first. -/
def elementwise (primitive : String) (lhs rhs : Atom) : Recorder (List Var) :=
  match broadcast? lhs.type.shape rhs.type.shape with
  | some shape => bind primitive [lhs, rhs] [⟨shape, lhs.type.dtype⟩] []
  | none =>
    throw (.trace (primitive ++ ": cannot broadcast " ++ lhs.type.text ++ " with " ++
      rhs.type.text))

/-- Run a tracer, on the shared counts. -/
def runTracer (tracer : Tracer) (types : List AbstractValue) : Recorder Trace := fun r =>
  match tracer types r.counts with
  | .ok (trace, counts) => .ok (trace, { r with counts })
  | .error e => .error e

/-- A callable that comes before, with its tracer. -/
def knownAt (known : List (String × Tracer)) (index : Nat) : Recorder (String × Tracer) :=
  match known[index]? with
  | some callee => return callee
  | none => throw (.trace ("program has no callable " ++ toString index))

/-- Call a callable that comes before. -/
def call (known : List (String × Tracer)) (index : Nat) (args : List Atom) :
    Recorder (List Var) := do
  let (name, tracer) ← knownAt known index
  let inner ← runTracer tracer (args.map Atom.type)
  bind callPrimitive args (inner.outputs.map Atom.type) [(callableKey, .callable index),
    ("name", .str name)]

/-- Run a statement; the result is what it makes. -/
def statement (settings : Params) (known : List (String × Tracer)) : Statement → Recorder (List Var)
  | .constant value => do return [← constant value]
  | .draw dtype dims bytes => do
    let counts := (← get).counts
    modify fun r => { r with counts := counts.draw }
    return [← constant ⟨dtype, dims, bytes counts.drawn⟩]
  | .elementwise primitive lhs rhs => do
    let lhs ← operand settings lhs
    let rhs ← operand settings rhs
    elementwise primitive lhs rhs
  | .bind primitive inputs outputs params => do
    let inputs ← inputs.mapM (operand settings)
    bind primitive inputs outputs (Keyed.ofList params)
  | .call index args => do
    let args ← args.mapM (operand settings)
    call known index args
  | .foreign v => return [v]
  | .fail failure => throw failure

/-- Run statements in order, holding what they make. -/
def statements (settings : Params) (known : List (String × Tracer)) : List Statement → Recorder Unit
  | [] => pure ()
  | s :: rest => do
    let made ← statement settings known s
    made.forM hold
    statements settings known rest

/-- The variable among the results that the trace did not make. -/
def stranger? (r : Recording) (inputs : List Var) (outputs : List Atom) : Option Var :=
  let made := inputs.map Var.id ++ r.constants.map (·.1.id) ++ r.equations.flatMap fun e =>
    e.outputs.map Var.id
  outputs.findSome? fun
    | .var v => if made.contains v.id then none else some v
    | .literal _ => none

end Recorder

namespace Callable

/-- The check of the number of arguments. -/
def checkArity (c : Callable) (given : Nat) : Except Failure Unit :=
  match c.arity with
  | none => .ok ()
  | some arity =>
    if arity.count = given then .ok ()
    else .error (.trace (arity.wording ++ ", got " ++ toString given))

/-- The tracer of a callable, made from the names and tracers of those before it. -/
def tracer (settings : Params) (known : List (String × Tracer)) (c : Callable) : Tracer :=
    fun types counts => do
  let inputs := types.zipIdx.map fun (type, i) => (⟨i, type⟩ : Var)
  c.checkArity inputs.length
  let start : Recording := ⟨inputs.length, [], [], inputs, counts.run⟩
  let (outputs, r) ← (do
    Recorder.statements settings known (c.body types counts.runs)
    (c.results types counts.runs).mapM (Recorder.operand settings)).run start
  match Recorder.stranger? r inputs outputs with
  | some v =>
    throw (.trace (c.name ++ " returned variable #" ++ toString v.id ++
      " that was not created by its own trace"))
  | none =>
    return ({ inputs, constants := r.constants, equations := r.equations, outputs }, r.counts)

end Callable

namespace Program

/-- The names and tracers of the callables, in order. -/
def tracers (settings : Params) (program : Program) : List (String × Tracer) :=
  program.foldl (fun known c => known ++ [(c.name, c.tracer settings known)]) []

/-- The tracers of a longer program begin with those of the shorter one. -/
theorem tracers_append_singleton (settings : Params) (program : Program) (c : Callable) :
    tracers settings (program ++ [c]) =
      tracers settings program ++ [(c.name, c.tracer settings (tracers settings program))] := by
  simp [tracers]

end Program

end TensorGraph
