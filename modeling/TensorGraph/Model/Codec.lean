import TensorGraph.Json.Document
import TensorGraph.Model.Basic

/-!
# Models as JSON

Each type of a model is written as an object with its fields in a fixed order, an alternative with a
value as an object with one field. When a node is read, its domain, attributes and display name may
be missing.
-/

namespace TensorGraph

open Json (Document required? defaulted?)

/-! ## Writing -/

/-- A dimension as JSON. -/
def ShapeDim.toJson : ShapeDim → Json
  | .fixed n => .obj [("Fixed", .nat n)]
  | .named name => .obj [("Named", .str name)]

/-- A shape as JSON. -/
def shapeToJson (shape : List ShapeDim) : Json :=
  .arr (shape.map ShapeDim.toJson)

/-- A record as JSON. -/
def ValueRecord.toJson (r : ValueRecord) : Json :=
  .obj [("name", .str r.name), ("shape", shapeToJson r.shape), ("dtype", .str r.dtype.name),
    ("provenance", .str r.provenance.name)]

/-- A tensor as JSON. -/
def Tensor.toJson (t : Tensor) : Json :=
  .obj [("dtype", .str t.dtype.name), ("dims", .arr (t.dims.map .nat)),
    ("raw", .arr (t.raw.map fun b => .nat b.toNat))]

/-- An attribute as JSON. -/
def Attribute.toJson : Attribute → Json
  | .int n => .obj [("Int", .int n)]
  | .float x => .obj [("Float", .real x)]
  | .ints ns => .obj [("Ints", .arr (ns.map .int))]
  | .str s => .obj [("Str", .str s)]
  | .tensor t => .obj [("Tensor", t.toJson)]

/-- A node as JSON. -/
def Node.toJson (n : Node) : Json :=
  .obj [("name", .str n.name), ("op_type", .str n.opType), ("domain", .str n.domain),
    ("inputs", .strs n.inputs), ("outputs", .strs n.outputs),
    ("attributes", .obj (n.attributes.map fun (k, a) => (k, a.toJson))),
    ("display_name", .option .str n.displayName)]

/-- A named constant as JSON. -/
def Initializer.toJson (i : Initializer) : Json :=
  .obj [("name", .str i.name), ("tensor", i.tensor.toJson)]

/-- A graph as JSON. -/
def Graph.toJson (g : Graph) : Json :=
  .obj [("name", .str g.name), ("inputs", .arr (g.inputs.map ValueRecord.toJson)),
    ("outputs", .arr (g.outputs.map ValueRecord.toJson)), ("nodes", .arr (g.nodes.map Node.toJson)),
    ("initializers", .arr (g.initializers.map Initializer.toJson)),
    ("value_info", .arr (g.records.map ValueRecord.toJson))]

/-- A function as JSON. -/
def Function.toJson (f : Function) : Json :=
  .obj [("name", .str f.name), ("domain", .str f.domain), ("inputs", .strs f.inputs),
    ("param_count", .nat f.paramCount), ("outputs", .strs f.outputs),
    ("nodes", .arr (f.nodes.map Node.toJson)),
    ("value_info", .arr (f.records.map ValueRecord.toJson))]

/-- A model as JSON. -/
def Model.toJson (m : Model) : Json :=
  .obj [("producer", .str m.producer), ("opset", .nat m.opset), ("graph", m.graph.toJson),
    ("functions", .arr (m.functions.map Function.toJson))]

/-! ## Reading -/

/-- The least and the largest signed 64-bit number. -/
def signedRange : Int × Int := (-0x8000000000000000, 0x7FFFFFFFFFFFFFFF)

/-- Read a signed 64-bit number. -/
def readSigned? (d : Document) : Option Int :=
  d.int? signedRange.1 signedRange.2

/-- Read a 64-bit number without a sign. -/
def readWord? (d : Document) : Option Nat :=
  d.nat? Text.wordMax

/-- Read an element type. -/
def DType.read? (d : Document) : Option DType :=
  d.bareName?.bind DType.ofName?

/-- Read a dimension. -/
def ShapeDim.read? (d : Document) : Option ShapeDim :=
  match d.alternative? with
  | some ("Fixed", some n) => (readWord? n).map .fixed
  | some ("Named", some s) => s.text?.map .named
  | _ => none

/-- Read a record. -/
def ValueRecord.read? (d : Document) : Option ValueRecord := do
  let fields ← d.fieldsOf? ["name", "shape", "dtype", "provenance"]
  return { name := ← required? fields "name" Document.text?
           shape := ← required? fields "shape" (Document.list? ShapeDim.read?)
           dtype := ← required? fields "dtype" DType.read?
           provenance :=
             ← required? fields "provenance" fun d => d.bareName?.bind Provenance.ofName? }

/-- Read a tensor. -/
def Tensor.read? (d : Document) : Option Tensor := do
  let fields ← d.fieldsOf? ["dtype", "dims", "raw"]
  return { dtype := ← required? fields "dtype" DType.read?
           dims := ← required? fields "dims" (Document.list? readWord?)
           raw := ← required? fields "raw" (Document.list? fun d => (d.nat? 255).map UInt8.ofNat) }

/-- Read an attribute. -/
def Attribute.read? (d : Document) : Option Attribute :=
  match d.alternative? with
  | some ("Int", some n) => (readSigned? n).map .int
  | some ("Float", some x) => x.real?.map .float
  | some ("Ints", some ns) => (ns.list? readSigned?).map .ints
  | some ("Str", some s) => s.text?.map .str
  | some ("Tensor", some t) => (Tensor.read? t).map .tensor
  | _ => none

/-- Read the attributes of a node. -/
def Attribute.readAll? (d : Document) : Option (List (String × Attribute)) :=
  (d.entriesWith? Attribute.read?).map Keyed.ofList

/-- Read a list of names. -/
def readNames? (d : Document) : Option (List String) :=
  d.list? Document.text?

/-- Read a node. -/
def Node.read? (d : Document) : Option Node := do
  let fields ← d.fieldsOf? ["name", "op_type", "domain", "inputs", "outputs", "attributes",
    "display_name"]
  return { name := ← required? fields "name" Document.text?
           opType := ← required? fields "op_type" Document.text?
           domain := ← defaulted? fields "domain" Document.text? ""
           inputs := ← required? fields "inputs" readNames?
           outputs := ← required? fields "outputs" readNames?
           attributes := ← defaulted? fields "attributes" Attribute.readAll? []
           displayName := ← defaulted? fields "display_name" Document.optionalText? none }

/-- Read a named constant. -/
def Initializer.read? (d : Document) : Option Initializer := do
  let fields ← d.fieldsOf? ["name", "tensor"]
  return { name := ← required? fields "name" Document.text?
           tensor := ← required? fields "tensor" Tensor.read? }

/-- Read a graph. -/
def Graph.read? (d : Document) : Option Graph := do
  let fields ← d.fieldsOf? ["name", "inputs", "outputs", "nodes", "initializers", "value_info"]
  return { name := ← required? fields "name" Document.text?
           inputs := ← required? fields "inputs" (Document.list? ValueRecord.read?)
           outputs := ← required? fields "outputs" (Document.list? ValueRecord.read?)
           nodes := ← required? fields "nodes" (Document.list? Node.read?)
           initializers := ← required? fields "initializers" (Document.list? Initializer.read?)
           records := ← required? fields "value_info" (Document.list? ValueRecord.read?) }

/-- Read a function. -/
def Function.read? (d : Document) : Option Function := do
  let fields ← d.fieldsOf? ["name", "domain", "inputs", "param_count", "outputs", "nodes",
    "value_info"]
  return { name := ← required? fields "name" Document.text?
           domain := ← required? fields "domain" Document.text?
           inputs := ← required? fields "inputs" readNames?
           paramCount := ← required? fields "param_count" readWord?
           outputs := ← required? fields "outputs" readNames?
           nodes := ← required? fields "nodes" (Document.list? Node.read?)
           records := ← required? fields "value_info" (Document.list? ValueRecord.read?) }

/-- Read a model. -/
def Model.read? (d : Document) : Option Model := do
  let fields ← d.fieldsOf? ["producer", "opset", "graph", "functions"]
  return { producer := ← required? fields "producer" Document.text?
           opset := ← required? fields "opset" (Document.nat? 0xFFFFFFFF)
           graph := ← required? fields "graph" Graph.read?
           functions := ← required? fields "functions" (Document.list? Function.read?) }

/-- The model that a JSON text describes. -/
def Model.parse? (text : String) : Option Model :=
  (Document.parse text).bind Model.read?

end TensorGraph
