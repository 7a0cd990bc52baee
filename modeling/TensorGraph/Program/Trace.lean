import TensorGraph.Shape.Dim

/-!
# Traces

A trace is what a program does when it runs on types in place of values: equations that apply
primitives to variables and constants. A call to another callable is one equation, which names the
callable by its position in the program.
-/

namespace TensorGraph

/-- A variable of a trace. -/
structure Var where
  id : Nat
  type : AbstractValue
  deriving DecidableEq, Repr

/-- An operand of an equation. -/
inductive Atom where
  | var (v : Var)
  | literal (value : Tensor)
  deriving DecidableEq, Repr

/-- The type of a tensor. -/
def Tensor.type (t : Tensor) : AbstractValue :=
  .known t.dims t.dtype

/-- The type of an operand. -/
def Atom.type : Atom → AbstractValue
  | .var v => v.type
  | .literal t => t.type

/-- A parameter of an equation or of a whole program. -/
inductive ParamValue where
  | int (value : Int)
  | float (value : Binary64)
  | bool (value : Bool)
  | str (value : String)
  | ints (values : List Int)
  /-- A callable, by its position in the program. -/
  | callable (index : Nat)
  deriving DecidableEq, Repr

/-- Parameters in the order of their keys. -/
abbrev Params := List (String × ParamValue)

/-- The key under which an equation holds the callable that it calls. -/
def callableKey : String := "callable"

/-- The primitive of a call. -/
def callPrimitive : String := "call"

/-- One step of a trace. -/
structure Equation where
  primitive : String
  inputs : List Atom
  outputs : List Var
  params : Params
  deriving DecidableEq, Repr

/-- The callable that an equation calls, by its position in the program. -/
def Equation.callee? (e : Equation) : Option Nat :=
  match e.params.lookup callableKey with
  | some (.callable index) => some index
  | _ => none

/-- What a program does on given types. -/
structure Trace where
  inputs : List Var
  constants : List (Var × Tensor)
  equations : List Equation
  outputs : List Atom
  deriving DecidableEq, Repr

/-! ## Arguments -/

/-- An array of known shape with all elements alike, described and not stored. -/
structure ExampleArray where
  dims : List Nat
  dtype : DType
  fill : Binary64
  deriving DecidableEq, Repr

/-- The array itself, if its size is not refused and its bytes can be held. -/
def ExampleArray.materialize (e : ExampleArray) : Except Failure (Option Tensor) :=
  Tensor.tryFilled e.dims e.dtype e.fill

/-- What a program is traced on. -/
inductive TraceArg where
  | abstract (type : AbstractValue)
  | sample (array : ExampleArray)
  | literal (value : Tensor)
  deriving DecidableEq, Repr

/-- The type of an argument. -/
def TraceArg.type : TraceArg → AbstractValue
  | .abstract t => t
  | .sample e => .known e.dims e.dtype
  | .literal t => t.type

/-- The argument that stands for an operand when a callee is traced again: a literal itself, ones
for a known shape, a zero for a known scalar, and the type alone when some length is a symbol. -/
def Atom.exampleArg : Atom → TraceArg
  | .literal t => .literal t
  | .var v =>
    match v.type.knownDims? with
    | some [] => .sample ⟨[], v.type.dtype, .zero⟩
    | some dims => .sample ⟨dims, v.type.dtype, .one⟩
    | none => .abstract v.type

end TensorGraph
