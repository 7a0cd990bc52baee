import TensorGraph.Builder.Level
import TensorGraph.Log

/-!
# Building graph levels

A `Builder` is the level under construction together with what all levels of a conversion share: the
pool of names, the table of constants and the log. Its operations are steps on this state that can
fail; a failed step leaves behind the state that it says, and the operations that report something
append to the log.

A nested level is built by a `Builder.child`, which starts with the functions of its parent and
shares the rest. When the child is finished, its parent goes on with the shared state that the child
left (`Builder.resume`).
-/

namespace TensorGraph

/-- A graph level under construction and what it shares with the other levels. -/
structure Builder where
  names : NamePool
  initializers : InitializerTable
  level : Level
  log : Log
  deriving DecidableEq, Repr

/-- A step of building. -/
abbrev Build := EStateM Failure Builder

namespace Builder

/-- A builder for the first level of a conversion. -/
def start (name : String) : Builder :=
  ⟨.empty, .empty, .empty name, []⟩

/-- A builder for a nested level. -/
def child (b : Builder) (name : String) : Builder :=
  { b with level := { Level.empty name with functions := b.level.functions } }

/-- Go on with a level, with the shared state of this builder. -/
def resume (b : Builder) (level : Level) : Builder :=
  { b with level }

/-- Append a line to the log. -/
def say (b : Builder) (level : LogLevel) (message : String) : Builder :=
  { b with log := b.log ++ [⟨level, message⟩] }

/-- Append a line about the level under construction. -/
def sayHere (b : Builder) (level : LogLevel) (message : String) : Builder :=
  b.say level (b.level.name ++ ": " ++ message)

/-- Mark a name as taken. -/
def reserve (b : Builder) (name : String) : Builder :=
  { b with names := b.names.reserve name }

/-- Put a record, in place of the one with its name. -/
def putRecord (b : Builder) (r : ValueRecord) : Builder :=
  { b with level := { b.level with records := TensorGraph.putRecord r b.level.records } }

/-- Append a function. -/
def pushFunction (b : Builder) (f : Function) : Builder :=
  { b with level := { b.level with functions := b.level.functions ++ [f] } }

/-- Is the name that of a constant? -/
def isInitializer (b : Builder) (name : String) : Bool :=
  b.initializers.contains name

end Builder

namespace Build

/-- A step that does not look at the state. -/
def ofExcept {α : Type} : Except Failure α → Build α
  | .ok a => pure a
  | .error e => throw e

/-- Append a line to the log. -/
def say (level : LogLevel) (message : String) : Build Unit :=
  modify fun b => b.say level message

/-- Append a line about the level under construction. -/
def sayHere (level : LogLevel) (message : String) : Build Unit :=
  modify fun b => b.sayHere level message

/-- Issue a fresh name. -/
def uniqueName (base : String) : Build String := fun b =>
  let (name, names) := b.names.fresh base
  .ok name { b with names }

/-- Issue a name for one more occurrence of a base. -/
def instanceName (base : String) : Build String := fun b =>
  let (name, names) := b.names.freshInstance base
  .ok name { b with names }

/-- Offer a record for its name, by the rules of `reconcile`. -/
def registerRecord (r : ValueRecord) : Build Unit := fun b =>
  match reconcile (b.level.record? r.name) r with
  | .insert | .upgrade => .ok () (b.putRecord r)
  | .keep => .ok () b
  | .keepReported detail =>
    .ok () (b.sayHere .warn ("keeping pinned record for '" ++ r.name ++ "' (" ++ detail ++ ")"))
  | .upgradeReported detail =>
    .ok () ((b.sayHere .warn ("replacing record for '" ++ r.name ++ "' (" ++ detail ++
      ")")).putRecord r)
  | .conflict detail => .error (.conflict r.name detail) b

/-- Declare an input. Its record may disagree with one that the name has already. -/
def addInput (name : String) (shape : List ShapeDim) (dtype : DType) : Build Unit := do
  modify fun b =>
    { b.reserve name with level := { b.level with inputs := b.level.inputs ++ [name] } }
  registerRecord ⟨name, shape, dtype, .declared⟩

/-- Declare an output. -/
def addOutput (name : String) : Build Unit :=
  modify fun b => { b with level := { b.level with outputs := b.level.outputs ++ [name] } }

/-- Append a node. Its name has to differ from those of the other nodes of the level. -/
def addNode (n : Node) : Build Unit := fun b =>
  if b.level.nodes.any fun m => m.name == n.name then .error (.duplicate "node" n.name) b
  else
    .ok () { b with
      names := n.outputs.foldl NamePool.reserve (b.names.reserve n.name)
      level := { b.level with nodes := b.level.nodes ++ [n] } }

/-- Add a constant under a given name. The name is taken from now on, also when it holds another
tensor. -/
def addInitializer (name : String) (tensor : Tensor) : Build Unit := fun b =>
  let b := b.reserve name
  match b.initializers.add name tensor with
  | .ok initializers => .ok () { b with initializers }
  | .error e => .error e b

/-- The name of a constant that holds the tensor, added under a fresh name if there is none at any
level. -/
def addConstant (base : String) (tensor : Tensor) : Build String := fun b =>
  match b.initializers.find? tensor with
  | some name => .ok name b
  | none =>
    let (name, names) := b.names.fresh base
    let b := { b with names }
    match b.initializers.add name tensor with
    | .ok initializers => .ok name { b with initializers }
    | .error e => .error e b

/-- Append a function, and give its name. A function with this name has to have the same body, and
then nothing changes. -/
def registerFunction (f : Function) : Build String := fun b =>
  match b.level.function? f.name with
  | some known =>
    if known.sameBody f then .ok f.name b else .error (.duplicate "function" f.name) b
  | none =>
    .ok f.name (((b.reserve f.name).sayHere .debug
      ("registered function " ++ f.name ++ " (" ++ toString f.nodes.length ++
        " nodes)")).pushFunction f)

/-- Make a function of a finished level and append it. -/
def addFunction (name : String) (sub : Level) (params : List String) : Build String := do
  let f ← ofExcept (sub.toFunction name params (← get).initializers)
  registerFunction f

/-- Append the functions of a nested level that are not known yet. -/
def mergeFunctions : List Function → Build Unit
  | [] => pure ()
  | f :: rest => do
    match (← get).level.function? f.name with
    | some known => if known.sameBody f then pure () else throw (.duplicate "function" f.name)
    | none =>
      modify fun b => (b.sayHere .debug ("propagated nested function " ++ f.name)).pushFunction f
    mergeFunctions rest

/-- Append a node that invokes a known function on data inputs and captured constants. -/
def addCall (function : String) (data params outputs : List String)
    (nodeName displayName : String) :
    Build Unit := do
  let inputs := data ++ params
  match (← get).level.function? function with
  | none => throw (Failure.of (.unknownCallTarget function))
  | some f =>
    if inputs.length = f.inputs.length then
      addNode { Node.plain function nodeName inputs outputs with
        domain := functionDomain, displayName := some displayName }
    else
      throw (.conflict nodeName ("call passes " ++ toString inputs.length ++ " inputs, '" ++
        function ++ "' declares " ++ toString f.inputs.length))

end Build

/-! ## Finishing the model -/

/-- Take the records of names out of a list, each name once. -/
def takeRecords :
    List String → List ValueRecord → Except Failure (List ValueRecord × List ValueRecord)
  | [], records => .ok ([], records)
  | name :: rest, records =>
    match findRecord? records name with
    | none => .error (.unresolvedOutput name "graph output has no record")
    | some r => do
      let (taken, left) ← takeRecords rest (records.filter fun s => s.name != name)
      return (r :: taken, left)

/-- The name that models give for what produced them. -/
def producerName : String := "lowergraph"

/-- The model of the first level. The records of inputs and outputs move to the places where these
are declared, and the constants move from the shared table into the graph. -/
def Build.finish (modelName : String) (opset : Nat) : Build Model := do
  let b ← get
  let (inputs, records) ← ofExcept (takeRecords b.level.inputs b.level.records)
  let (outputs, records) ← ofExcept (takeRecords b.level.outputs records)
  set { b with initializers := .empty }
  return {
    producer := producerName
    opset
    graph := { name := modelName, inputs, outputs, nodes := b.level.nodes,
               initializers := b.initializers.entries, records }
    functions := b.level.functions }

end TensorGraph
