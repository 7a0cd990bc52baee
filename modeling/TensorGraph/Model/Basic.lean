import TensorGraph.Record
import TensorGraph.Tensor.Basic

/-!
# Graph models

A model is one graph and a list of functions that its call nodes invoke. A node of the domain
`custom` is a call: its operation is the name of a function, whose inputs are the data inputs
followed by the parameters that receive captured constants.
-/

namespace TensorGraph

/-- The domain of call nodes and functions. -/
def functionDomain : String := "custom"

/-- A constant that configures a node. -/
inductive Attribute where
  | int (value : Int)
  | float (value : Binary64)
  | ints (values : List Int)
  | str (value : String)
  | tensor (value : Tensor)
  deriving DecidableEq, Repr

/-- Equality of attributes, where floating-point numbers are compared as numbers. -/
def Attribute.same : Attribute → Attribute → Bool
  | .float x, .float y => x.same y
  | a, b => a == b

/-- An operation of a graph. -/
structure Node where
  name : String
  opType : String
  domain : String
  inputs : List String
  outputs : List String
  /-- In the order of the keys. -/
  attributes : List (String × Attribute)
  /-- The name of the construct that the node stands for. -/
  displayName : Option String
  deriving DecidableEq, Repr

namespace Node

/-- A node of the default domain without attributes. -/
def plain (opType name : String) (inputs outputs : List String) : Node :=
  { name, opType, domain := "", inputs, outputs, attributes := [], displayName := none }

/-- Does the node invoke a function? -/
def isCall (n : Node) : Bool :=
  n.domain == functionDomain

/-- Equality of nodes, where floating-point numbers are compared as numbers. -/
def same (a b : Node) : Bool :=
  a.name == b.name && a.opType == b.opType && a.domain == b.domain && a.inputs == b.inputs &&
    a.outputs == b.outputs &&
    a.attributes.isEqv b.attributes (fun x y => x.1 == y.1 && x.2.same y.2) &&
    a.displayName == b.displayName

/-- A node in words. -/
def text (n : Node) : String :=
  ", ".intercalate n.outputs ++ " = " ++ n.opType ++ "[" ++ n.name ++ "](" ++
    ", ".intercalate n.inputs ++ ")"

end Node

/-- A named constant. -/
structure Initializer where
  name : String
  tensor : Tensor
  deriving DecidableEq, Repr

/-- The top level of a model. -/
structure Graph where
  name : String
  inputs : List ValueRecord
  outputs : List ValueRecord
  nodes : List Node
  initializers : List Initializer
  records : List ValueRecord
  deriving DecidableEq, Repr

namespace Graph

/-- A constant by its name. -/
def initializer? (g : Graph) (name : String) : Option Initializer :=
  g.initializers.find? fun i => i.name == name

/-- The names of the inputs. -/
def inputNames (g : Graph) : List String :=
  g.inputs.map ValueRecord.name

/-- The names of the outputs. -/
def outputNames (g : Graph) : List String :=
  g.outputs.map ValueRecord.name

/-- The names of the constants. -/
def initializerNames (g : Graph) : List String :=
  g.initializers.map Initializer.name

end Graph

/-- A graph that call nodes invoke. -/
structure Function where
  name : String
  domain : String
  /-- The data inputs, then `paramCount` parameters. -/
  inputs : List String
  paramCount : Nat
  outputs : List String
  nodes : List Node
  records : List ValueRecord
  deriving DecidableEq, Repr

namespace Function

/-- The data inputs and the parameters. There is no such division when more parameters are counted
than there are inputs. -/
def inputParts? (f : Function) : Option (List String × List String) :=
  if f.paramCount ≤ f.inputs.length then
    some (f.inputs.splitAt (f.inputs.length - f.paramCount))
  else none

/-- The record of a name. -/
def record? (f : Function) (name : String) : Option ValueRecord :=
  findRecord? f.records name

/-- Do two functions differ at most by their names? -/
def sameBody (f g : Function) : Bool :=
  f.domain == g.domain && f.inputs == g.inputs && f.paramCount == g.paramCount && f.outputs ==
    g.outputs && f.nodes.isEqv g.nodes Node.same && f.records == g.records

end Function

/-- The first function with a name. -/
def findFunction? (functions : List Function) (name : String) : Option Function :=
  functions.find? fun f => f.name == name

/-- A graph with the functions that it calls. -/
structure Model where
  producer : String
  opset : Nat
  graph : Graph
  functions : List Function
  deriving DecidableEq, Repr

namespace Model

/-- The first function with a name. -/
def function? (m : Model) (name : String) : Option Function :=
  findFunction? m.functions name

/-- The call nodes of the graph, in order. -/
def callNodes (m : Model) : List Node :=
  m.graph.nodes.filter Node.isCall

end Model

end TensorGraph
