import TensorGraph.Json.Document
import TensorGraph.Json.Printer
import TensorGraph.Log
import TensorGraph.Model.Basic

/-!
# The report on constants

The report lists the inputs and constants of a model, how each call of the graph receives its
inputs, and which operations read each constant.
-/

namespace TensorGraph

/-- How an input of a call is fed. -/
inductive InputSource where
  | graphInput
  | initializer
  | intermediate
  deriving DecidableEq, Repr

namespace InputSource

/-- A source in words. -/
def text : InputSource → String
  | .graphInput => "graph input"
  | .initializer => "initializer"
  | .intermediate => "intermediate"

/-- The name of a source. -/
def name : InputSource → String
  | .graphInput => "graph_input"
  | .initializer => "initializer"
  | .intermediate => "intermediate"

/-- A source by its exact name. -/
def ofName? : String → Option InputSource
  | "graph_input" => some .graphInput
  | "initializer" => some .initializer
  | "intermediate" => some .intermediate
  | _ => none

end InputSource

/-- One input of a call. -/
structure CallInput where
  name : String
  source : InputSource
  deriving DecidableEq, Repr

/-- The inputs of one call. -/
structure CallReport where
  node : String
  function : String
  inputs : List CallInput
  deriving DecidableEq, Repr

/-- The type of one constant. -/
structure ConstantEntry where
  name : String
  dtype : String
  dims : List Nat
  deriving DecidableEq, Repr

/-- What becomes of the constants of a model. -/
structure ConstantReport where
  /-- The inputs of the graph with their types. -/
  inputs : List String
  initializers : List ConstantEntry
  calls : List CallReport
  /-- The operations that read a constant, by the constant's name, in the order of the names. -/
  usage : List (String × List String)
  deriving DecidableEq, Repr

/-- Where a name of the graph comes from. -/
def Graph.sourceOf (g : Graph) (name : String) : InputSource :=
  if g.inputNames.contains name then .graphInput
  else if g.initializerNames.contains name then .initializer
  else .intermediate

/-- How a call of the graph receives its inputs. -/
def CallReport.ofNode (g : Graph) (n : Node) : CallReport :=
  ⟨n.name, n.opType, n.inputs.map fun name => ⟨name, g.sourceOf name⟩⟩

namespace ConstantReport

/-- Note one more operation that reads a constant. -/
def noteUse (opType : String) (usage : List (String × List String)) (constant : String) :
    List (String × List String) :=
  Keyed.set constant ((usage.lookup constant).getD [] ++ [opType]) usage

/-- Note a node of the graph: its operation for every input that is a constant, and how it receives
its inputs if it is a call. -/
def noteNode (g : Graph) (r : ConstantReport) (n : Node) : ConstantReport :=
  { r with
    calls := if n.isCall then r.calls ++ [CallReport.ofNode g n] else r.calls
    usage := (n.inputs.filter g.initializerNames.contains).foldl (noteUse n.opType) r.usage }

/-- The report on the constants of a model. -/
def ofModel (m : Model) : ConstantReport :=
  let g := m.graph
  g.nodes.foldl (noteNode g)
    { inputs := g.inputs.map fun i => i.name ++ ": " ++ i.typeText
      initializers := g.initializers.map fun i => ⟨i.name, i.tensor.dtype.name, i.tensor.dims⟩
      calls := []
      usage := [] }

/-- The log of making a report. -/
def log (r : ConstantReport) : Log :=
  [⟨.info, "constant report: " ++ toString r.inputs.length ++ " inputs, " ++
    toString r.initializers.length ++ " initializers, " ++ toString r.calls.length ++ " calls"⟩]

/-- The number of call inputs that are fed by constants. -/
def initializerFedInputs (r : ConstantReport) : Nat :=
  (r.calls.flatMap CallReport.inputs).countP fun i => i.source == .initializer

/-- The lines of a report. -/
def lines (r : ConstantReport) : List String :=
  ["Inputs:"] ++ r.inputs.map ("  " ++ ·) ++
    ["Initializers:"] ++
    r.initializers.map (fun i =>
      "  " ++ i.name ++ ": " ++ i.dtype ++ "[" ++ ",".intercalate (i.dims.map toString) ++ "]") ++
    r.calls.flatMap (fun c =>
      ("Call " ++ c.node ++ " -> " ++ c.function ++ ":") ::
        c.inputs.map fun i => "  " ++ i.name ++ " (" ++ i.source.text ++ ")") ++
    (if r.usage.isEmpty then []
      else "Constant usage:" :: r.usage.map fun (name, ops) =>
        "  " ++ name ++ " used by " ++ ", ".intercalate ops)

/-- A report in words, each line ended. -/
def text (r : ConstantReport) : String :=
  String.join (r.lines.map (· ++ "\n"))

/-! ## As JSON -/

/-- A report as JSON. -/
def toJson (r : ConstantReport) : Json :=
  .obj [
    ("inputs", .strs r.inputs),
    ("initializers", .arr (r.initializers.map fun i =>
      .obj [("name", .str i.name), ("dtype", .str i.dtype), ("dims", .arr (i.dims.map .nat))])),
    ("calls", .arr (r.calls.map fun c =>
      .obj [("node", .str c.node), ("function", .str c.function),
        ("inputs", .arr (c.inputs.map fun i =>
          .obj [("name", .str i.name), ("source", .str i.source.name)]))])),
    ("usage", .obj (r.usage.map fun (name, ops) => (name, .strs ops)))]

/-- Read one input of a call. -/
def readCallInput? (d : Json.Document) : Option CallInput := do
  let fields ← d.fieldsOf? ["name", "source"]
  return { name := ← Json.required? fields "name" Json.Document.text?
           source :=
             ← Json.required? fields "source" fun d => d.bareName?.bind InputSource.ofName? }

/-- Read the inputs of one call. -/
def readCall? (d : Json.Document) : Option CallReport := do
  let fields ← d.fieldsOf? ["node", "function", "inputs"]
  return { node := ← Json.required? fields "node" Json.Document.text?
           function := ← Json.required? fields "function" Json.Document.text?
           inputs := ← Json.required? fields "inputs" (Json.Document.list? readCallInput?) }

/-- Read the type of one constant. -/
def readConstant? (d : Json.Document) : Option ConstantEntry := do
  let fields ← d.fieldsOf? ["name", "dtype", "dims"]
  return { name := ← Json.required? fields "name" Json.Document.text?
           dtype := ← Json.required? fields "dtype" Json.Document.text?
           dims := ← Json.required? fields "dims"
             (Json.Document.list? (Json.Document.nat? Text.wordMax)) }

/-- Read a report. -/
def read? (d : Json.Document) : Option ConstantReport := do
  let fields ← d.fieldsOf? ["inputs", "initializers", "calls", "usage"]
  let usage ← Json.required? fields "usage"
    (Json.Document.entriesWith? (Json.Document.list? Json.Document.text?))
  return { inputs := ← Json.required? fields "inputs" (Json.Document.list? Json.Document.text?)
           initializers :=
             ← Json.required? fields "initializers" (Json.Document.list? readConstant?)
           calls := ← Json.required? fields "calls" (Json.Document.list? readCall?)
           usage := Keyed.ofList usage }

/-- Does writing the report and reading it again give the same report? -/
def readsBack (r : ConstantReport) : Bool :=
  ((Json.Document.parse r.toJson.compact).bind read?) == some r

end ConstantReport

end TensorGraph
