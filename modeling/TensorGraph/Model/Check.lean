import TensorGraph.Model.Basic

/-!
# Checking a model

`Model.problems` lists every breach of the rules of a finished model: node names are unique in their
body, every name is defined before it is read, a call passes as many inputs as its function takes,
outputs are produced, constants are read, and the inputs and outputs of functions have records.
Where two functions share a name, the last one is the one that calls are compared with.
-/

namespace TensorGraph

/-- The body in which a problem was found. -/
inductive Scope where
  | graph
  | function (name : String)
  deriving DecidableEq, Repr

/-- A body in words. -/
def Scope.text : Scope → String
  | .graph => "graph"
  | .function name => "function " ++ name

/-- A breach of the rules of a finished model. -/
inductive Problem where
  | duplicateNode (scope : Scope) (node : String)
  | dangling (scope : Scope) (node input : String)
  | inputCount (scope : Scope) (node : String) (passed : Nat) (function : String) (taken : Nat)
  | unknownFunction (scope : Scope) (node function : String)
  | notProduced (scope : Scope) (output : String)
  | unreferenced (initializer : String)
  | noRecord (scope : Scope) (name : String)
  deriving DecidableEq, Repr

/-- A problem in words. -/
def Problem.text : Problem → String
  | .duplicateNode scope node => scope.text ++ ": duplicate node name '" ++ node ++ "'"
  | .dangling scope node input =>
    scope.text ++ ": node '" ++ node ++ "' reads dangling name '" ++ input ++ "'"
  | .inputCount scope node passed function taken =>
    scope.text ++ ": call '" ++ node ++ "' passes " ++ toString passed ++ " inputs to '" ++
      function ++ "' which takes " ++ toString taken
  | .unknownFunction scope node function =>
    scope.text ++ ": call '" ++ node ++ "' targets unknown function '" ++ function ++ "'"
  | .notProduced scope output => scope.text ++ ": output '" ++ output ++ "' is never produced"
  | .unreferenced initializer => "graph: initializer '" ++ initializer ++ "' is never referenced"
  | .noRecord scope name => scope.text ++ ": '" ++ name ++ "' has no shape/dtype record"

namespace Model

/-- The last function with a name. -/
def lastFunction? (m : Model) (name : String) : Option Function :=
  findFunction? m.functions.reverse name

/-- The problems of a call. -/
def callProblems (m : Model) (scope : Scope) (n : Node) : List Problem :=
  if n.isCall then
    match m.lastFunction? n.opType with
    | none => [.unknownFunction scope n.name n.opType]
    | some f =>
      if f.inputs.length = n.inputs.length then []
      else [.inputCount scope n.name n.inputs.length f.name f.inputs.length]
  else []

/-- The problems of a node, after nodes with the names `seen`, where the names `defined` can be
read. -/
def nodeProblems (m : Model) (scope : Scope) (seen defined : List String) (n : Node) :
    List Problem :=
  (if seen.contains n.name then [.duplicateNode scope n.name] else []) ++
    (n.inputs.filter fun i => !defined.contains i).map (.dangling scope n.name ·) ++
    m.callProblems scope n

/-- The problems of the nodes of a body. -/
def bodyProblems (m : Model) (scope : Scope) (seen defined : List String) : List Node → List Problem
  | [] => []
  | n :: rest =>
    m.nodeProblems scope seen defined n ++ m.bodyProblems scope (n.name :: seen)
      (defined ++ n.outputs) rest

/-- The outputs of a body that nothing produces. -/
def outputProblems (scope : Scope) (defined : List String) (nodes : List Node)
    (outputs : List String) :
    List Problem :=
  (outputs.filter fun o => !(defined ++ nodes.flatMap Node.outputs).contains o).map
    (.notProduced scope ·)

/-- The problems of the graph. -/
def graphProblems (m : Model) : List Problem :=
  let g := m.graph
  let defined := g.inputNames ++ g.initializerNames
  let read := g.nodes.flatMap Node.inputs
  m.bodyProblems .graph [] defined g.nodes ++
    outputProblems .graph defined g.nodes g.outputNames ++
    (g.initializerNames.filter fun i => !read.contains i).map .unreferenced

/-- The problems of a function. -/
def functionProblems (m : Model) (f : Function) : List Problem :=
  let scope := Scope.function f.name
  m.bodyProblems scope [] f.inputs f.nodes ++
    ((f.inputs ++ f.outputs).filter fun name => (f.record? name).isNone).map (.noRecord scope ·) ++
    outputProblems scope f.inputs f.nodes f.outputs

/-- Every problem of a model. -/
def problems (m : Model) : List Problem :=
  m.graphProblems ++ m.functions.flatMap m.functionProblems

/-- Does a model keep all rules? -/
def isValid (m : Model) : Bool :=
  m.problems.isEmpty

end Model

end TensorGraph
