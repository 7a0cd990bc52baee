import TensorGraph.Log
import TensorGraph.Model.Basic

/-!
# Removing what no output needs

A node is live when one of its outputs is an output of its body or is read by a live node after it.
Functions stay while a live call reaches them, records while a live node or an input of the function
carries their name, and constants while a node of the graph reads them.
-/

namespace TensorGraph

/-- The nodes that contribute to `outputs`, and the names that they and `outputs` need. -/
def liveFrom (outputs : List String) : List Node → List Node × List String
  | [] => ([], outputs)
  | n :: rest =>
    let (kept, live) := liveFrom outputs rest
    if n.outputs.any live.contains then (n :: kept, n.inputs ++ live) else (kept, live)

/-- The nodes that contribute to `outputs`, in order. -/
def liveNodes (outputs : List String) (nodes : List Node) : List Node :=
  (liveFrom outputs nodes).1

/-- The functions that the nodes call. -/
def callTargets (nodes : List Node) : List String :=
  (nodes.filter Node.isCall).map Node.opType

namespace Function

/-- The function without the nodes that its outputs do not need, and without records that name
nothing in it. -/
def withoutDeadNodes (f : Function) : Function :=
  let nodes := liveNodes f.outputs f.nodes
  let named := f.inputs ++ nodes.flatMap Node.outputs
  { f with nodes, records := f.records.filter fun r => named.contains r.name }

end Function

/-- The names that functions with a reached name call and that are not reached yet. -/
def newlyReached (functions : List Function) (reached : List String) : List String :=
  ((functions.filter fun f => reached.contains f.name).flatMap fun f => callTargets f.nodes).filter
    fun name => !reached.contains name

/-- Follow calls for at most `rounds` rounds. -/
def reachFrom (functions : List Function) : Nat → List String → List String
  | 0, reached => reached
  | rounds + 1, reached =>
    let grown := newlyReached functions reached
    if grown.isEmpty then reached else reachFrom functions rounds (reached ++ grown)

/-- The names that are reached through calls. Every round but the last reaches a function that was
not reached before, so there are no more rounds than functions. -/
def reachable (functions : List Function) (start : List String) : List String :=
  reachFrom functions functions.length start

namespace Model

/-- Is a constant read by a node of the graph? -/
def readsInitializer (m : Model) (name : String) : Bool :=
  (m.graph.nodes.flatMap Node.inputs).contains name

/-- The constants that no node of the graph reads, in order. -/
def unusedInitializers (m : Model) : List String :=
  m.graph.initializerNames.filter fun name => !m.readsInitializer name

/-- The model without the constants that no node of the graph reads. -/
def prune (m : Model) : Model :=
  { m with graph := { m.graph with
      initializers := m.graph.initializers.filter fun i => m.readsInitializer i.name } }

/-- The log of pruning: a line for each constant that goes. -/
def pruneLog (m : Model) : Log :=
  m.unusedInitializers.map fun name => ⟨.debug, "pruning unused initializer '" ++ name ++ "'"⟩

/-- The model without the nodes and functions that its outputs do not need. -/
def withoutDeadNodes (m : Model) : Model :=
  let nodes := liveNodes m.graph.outputNames m.graph.nodes
  let functions := m.functions.map Function.withoutDeadNodes
  let reached := reachable functions (callTargets nodes)
  let named := nodes.flatMap Node.outputs
  { m with
    graph :=
      { m.graph with nodes, records := m.graph.records.filter fun r => named.contains r.name }
    functions := functions.filter fun f => reached.contains f.name }

/-- The model without nodes, functions and constants that cannot reach an output. -/
def eliminateDead (m : Model) : Model :=
  m.withoutDeadNodes.prune

/-- The log of the elimination. -/
def eliminationLog (m : Model) : Log :=
  let removed := m.graph.nodes.length - m.withoutDeadNodes.graph.nodes.length
  (if 0 < removed then
    [⟨.debug, "dead-node elimination removed " ++ toString removed ++ " top-level nodes"⟩]
  else []) ++ m.withoutDeadNodes.pruneLog

end Model

/-- A pass over a finished model. -/
inductive Optimizer where
  /-- Leaves the model as it is. -/
  | noop
  /-- Removes what cannot reach an output. -/
  | deadNodeElimination
  deriving DecidableEq, Repr

namespace Optimizer

/-- The name of a pass. -/
def name : Optimizer → String
  | .noop => "noop"
  | .deadNodeElimination => "dead-node-elimination"

/-- Run a pass. -/
def optimize : Optimizer → Model → Model
  | .noop, m => m
  | .deadNodeElimination, m => m.eliminateDead

/-- The log of a pass. -/
def log : Optimizer → Model → Log
  | .noop, _ => []
  | .deadNodeElimination, m => m.eliminationLog

end Optimizer

end TensorGraph
