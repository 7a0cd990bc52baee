import TensorGraph.Program.Trace
import TensorGraph.Text.Blank

/-!
# Programs

A program is a list of callables, each of which can call the ones before it; the last one is the
program's entry. A callable holds a list of values, at first its arguments, and every statement
appends the variables that it makes.

The steps of a callable may depend on the types of its arguments, and they may change from one run
to the next : they are given for each number of runs of callables before it. `Callable.fixed` takes
the same steps in every run. Callables are referred to by position, and their names need not
differ.
-/

namespace TensorGraph

/-- An operand of a statement. -/
inductive Operand where
  /-- A value that the callable holds, by its position. -/
  | value (index : Nat)
  /-- A scalar. -/
  | literal (dtype : DType) (value : Binary64)
  /-- A scalar with the element type of a value that the callable holds. -/
  | literalLike (index : Nat) (value : Binary64)
  /-- A tensor. -/
  | tensor (value : Tensor)
  /-- A scalar made of a parameter of the program. -/
  | param (dtype : DType) (key : String)
  deriving DecidableEq, Repr

/-- One step of a callable. -/
inductive Statement where
  /-- Capture a constant. -/
  | constant (value : Tensor)
  /-- Capture a constant of a given type whose bytes depend on the number of such statements run
  before. -/
  | draw (dtype : DType) (dims : List Nat) (bytes : Nat → List UInt8)
  /-- Apply a primitive to two operands, broadcasting their shapes. -/
  | elementwise (primitive : String) (lhs rhs : Operand)
  /-- Apply a primitive with given output types. -/
  | bind (primitive : String) (inputs : List Operand) (outputs : List AbstractValue)
      (params : Params)
  /-- Call a callable, by its position in the program. -/
  | call (callee : Nat) (args : List Operand)
  /-- Hold a variable that was not made here. -/
  | foreign (v : Var)
  /-- Give up with a failure, which may have a site. -/
  | fail (failure : Failure)

/-- The number of arguments that a callable insists on. -/
structure Arity where
  count : Nat
  /-- How a wrong number is reported, up to the number given. -/
  wording : String
  deriving DecidableEq, Repr

/-- A part of a program that can be traced on its own. -/
structure Callable where
  /-- The qualified name, with parts divided by points or colons. -/
  name : String
  arity : Option Arity
  /-- The statements of a run on arguments of given types, by the number of runs before it. -/
  body : List AbstractValue → Nat → List Statement
  /-- What such a run returns. -/
  results : List AbstractValue → Nat → List Operand

/-- A callable that takes the same steps in every run. -/
def Callable.fixed (name : String) (arity : Option Arity) (body : List Statement)
    (results : List Operand) : Callable :=
  ⟨name, arity, fun _ _ => body, fun _ _ => results⟩

/-- A list of callables, each of which can call the ones before it. -/
abbrev Program := List Callable

/-- The last part of a qualified name that is not empty, or the whole name. -/
def baseName (name : String) : String :=
  match (Text.pieces (fun c => c == '.' || c == ':') name.toList).reverse.find? fun piece =>
    !piece.isEmpty with
  | some piece => String.ofList piece
  | none => name

/-- The last part of the callable's name. -/
def Callable.baseName (c : Callable) : String :=
  TensorGraph.baseName c.name

/-- A callable in words, by its qualified name. -/
def callableText (name : String) : String :=
  "Callable(" ++ name ++ ")"

end TensorGraph
