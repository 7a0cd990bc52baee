import TensorGraph.Lowering.Handler

/-!
# The registry of primitives

A registry holds the handler of each primitive, with a description and with small programs that
exercise it. The built-in registry serves `pow`, `add` and `mul`.
-/

namespace TensorGraph

/-- A link to the documentation of an operation. -/
structure DocRef where
  component : String
  doc : String
  deriving DecidableEq, Repr

/-- A program that exercises a handler, with the shapes it is traced on. -/
structure TestCase where
  name : String
  inputShapes : List String
  dtype : DType
  program : Program

namespace TestCase

/-- The qualified name of the program's entry. -/
def callableName (t : TestCase) : String :=
  (t.program.getLast?.map Callable.name).getD ""

/-- A test case in words. -/
def text (t : TestCase) : String :=
  "TestCase(" ++ t.name ++ " [" ++ ", ".intercalate
    (t.inputShapes.map fun s => "\"" ++ s ++ "\"") ++ "])"

end TestCase

/-- The description of a primitive. -/
structure PrimitiveMeta where
  primitive : String
  sourceDoc : String
  targets : List DocRef
  since : String
  context : String
  component : String
  testCases : List TestCase

/-- Primitives with their handlers, in the order in which they were registered. -/
structure Registry where
  entries : List (PrimitiveMeta × Handler)

namespace Registry

/-- No primitives. -/
def empty : Registry := ⟨[]⟩

/-- The description of a primitive. -/
def description? (r : Registry) (primitive : String) : Option PrimitiveMeta :=
  (r.entries.find? fun entry => entry.1.primitive == primitive).map Prod.fst

/-- The handler of a primitive. -/
def handler? (r : Registry) (primitive : String) : Option Handler :=
  (r.entries.find? fun entry => entry.1.primitive == primitive).map Prod.snd

/-- Is the primitive registered? -/
def contains (r : Registry) (primitive : String) : Bool :=
  (r.description? primitive).isSome

/-- Register a primitive. Each can be served by one handler only. -/
def register (r : Registry) (description : PrimitiveMeta) (h : Handler) : Except Failure Registry :=
  if r.contains description.primitive
    then .error (.duplicate "primitive handler" description.primitive)
  else .ok ⟨r.entries ++ [(description, h)]⟩

/-- The line that is logged when a primitive is registered. -/
def registerLine (description : PrimitiveMeta) : LogLine :=
  ⟨.debug, "registered handler for " ++ description.primitive ++ " (" ++ description.context ++ ")"⟩

/-- The descriptions in the order of the primitives. -/
def primitives (r : Registry) : List PrimitiveMeta :=
  (r.entries.map Prod.fst).mergeSort fun a b => a.primitive ≤ b.primitive

/-- The test cases with their primitives, in the order of the primitives. -/
def testCases (r : Registry) : List (String × TestCase) :=
  r.primitives.flatMap fun m => m.testCases.map fun t => (m.primitive, t)

/-- A test case by its name. -/
def testCase? (r : Registry) (name : String) : Option TestCase :=
  (r.entries.flatMap fun entry => entry.1.testCases).find? fun t => t.name == name

/-! ## The built-in primitives -/

/-- The check of a test program for a number of arguments. -/
def insist (name : String) (count : Nat) : Option Arity :=
  some ⟨count,
    name ++ " takes " ++ toString count ++ (if count = 1 then " argument" else " arguments")⟩

/-- A program that applies a primitive to its two arguments. -/
def binaryCallable (name argumentsOf primitive : String) : Callable :=
  .fixed name (insist argumentsOf 2) [.elementwise primitive (.value 0) (.value 1)] [.value 2]

/-- A program that adds one to its argument. -/
def addOneCallable : Callable :=
  .fixed "add_one" (insist "add_one" 1) [.elementwise "add" (.value 0) (.literalLike 0 .one)]
    [.value 1]

/-- A program that adds its two arguments in a callable of their own. -/
def addInBlockProgram : Program :=
  [binaryCallable "blocks.AddBlock" "AddBlock" "add",
   .fixed "add_in_block" (insist "add_in_block" 2) [.call 0 [.value 0, .value 1]] [.value 2]]

/-- The description of `add`. -/
def addMeta : PrimitiveMeta :=
  { primitive := "add"
    sourceDoc := "https://docs.jax.dev/en/latest/_autosummary/jax.lax.add.html"
    targets := [⟨"Add", "https://onnx.ai/onnx/operators/onnx__Add.html"⟩]
    since := "v0.1.0"
    context := "primitives.lax"
    component := "add"
    testCases := [
      ⟨"add_test1", ["3", "3"], .f32, [binaryCallable "add" "add" "add"]⟩,
      ⟨"add_literal", ["2,3"], .f32, [addOneCallable]⟩,
      ⟨"add_in_block", ["B,4", "B,4"], .f32, addInBlockProgram⟩] }

/-- The description of `mul`. -/
def mulMeta : PrimitiveMeta :=
  { primitive := "mul"
    sourceDoc := "https://docs.jax.dev/en/latest/_autosummary/jax.lax.mul.html"
    targets := [⟨"Mul", "https://onnx.ai/onnx/operators/onnx__Mul.html"⟩]
    since := "v0.1.0"
    context := "primitives.lax"
    component := "mul"
    testCases := [
      ⟨"mul_test1", ["3", "3"], .f32, [binaryCallable "mul" "mul" "mul"]⟩,
      ⟨"mul_symbolic", ["B,4", "B,4"], .f32, [binaryCallable "mul" "mul" "mul"]⟩] }

/-- The description of `pow`. -/
def powMeta : PrimitiveMeta :=
  { primitive := "pow"
    sourceDoc := "https://docs.jax.dev/en/latest/_autosummary/jax.lax.pow.html"
    targets := [⟨"Pow", "https://onnx.ai/onnx/operators/onnx__Pow.html"⟩]
    since := "v0.1.0"
    context := "primitives.lax"
    component := "pow"
    testCases := [
      ⟨"pow_test1", ["3", "3"], .f32, [binaryCallable "pow" "pow" "pow"]⟩,
      ⟨"pow_test2", ["2,2", "2,2"], .f32, [binaryCallable "pow" "pow" "pow"]⟩] }

/-- The registry of the built-in primitives. -/
def builtin : Registry :=
  ⟨[(powMeta, .pow), (addMeta, .binary "Add"), (mulMeta, .binary "Mul")]⟩

/-- The lines that are logged when the built-in primitives are registered. -/
def builtinLog : Log :=
  builtin.entries.map fun entry => registerLine entry.1

end Registry

end TensorGraph
