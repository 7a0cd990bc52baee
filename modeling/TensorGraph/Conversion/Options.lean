import TensorGraph.Json.Printer
import TensorGraph.Model.Codec
import TensorGraph.Program.Trace

/-!
# Options of a conversion

Options are read from JSON; every option that is missing takes its default. The parameters for the
traced program are kept as JSON values and turned into `Params` only when a conversion starts.
-/

namespace TensorGraph

/-- What can be chosen for a conversion. -/
structure ConversionOptions where
  modelName : String
  opset : Nat
  defaultDtype : DType
  /-- Parameters for the traced program, in the order of their keys. -/
  inputParams : List (String × Json)
  optimize : Bool

namespace ConversionOptions

/-- Nothing chosen. -/
def default : ConversionOptions :=
  { modelName := "model", opset := 21, defaultDtype := .f32, inputParams := [], optimize := true }

/-- Is every option at its default? -/
def isDefault (o : ConversionOptions) : Bool :=
  o.modelName == default.modelName && o.opset == default.opset && o.defaultDtype ==
    default.defaultDtype && o.inputParams.isEmpty && o.optimize == default.optimize

/-- Read parameters. Two levels of nesting are used up where they stand. -/
def readParams? (d : Json.Document) : Option (List (String × Json)) :=
  (d.entriesWith? (Json.Document.value? (Json.Document.depthLimit - 2))).map Keyed.ofList

/-- Read options. -/
def read? (d : Json.Document) : Option ConversionOptions := do
  let fields ← d.fieldsOf? ["model_name", "opset", "default_dtype", "input_params", "optimize"]
  return { modelName := ← Json.defaulted? fields "model_name" Json.Document.text? default.modelName
           opset := ← Json.defaulted? fields "opset" (Json.Document.nat? 0xFFFFFFFF) default.opset
           defaultDtype := ← Json.defaulted? fields "default_dtype" DType.read? default.defaultDtype
           inputParams := ← Json.defaulted? fields "input_params" readParams? default.inputParams
           optimize := ← Json.defaulted? fields "optimize" Json.Document.bool? default.optimize }

/-- The options that a JSON text describes. -/
def parse? (text : String) : Option ConversionOptions :=
  (Json.Document.parse text).bind read?

/-- A whole number that fits a signed 64-bit word. -/
def signed? : Json → Option Int
  | .int n => if signedRange.1 ≤ n ∧ n ≤ signedRange.2 then some n else none
  | _ => none

/-- The parameter that a JSON value describes. A number that is no signed word counts as a
floating-point one. -/
def paramOf (key : String) (value : Json) : Except Failure ParamValue :=
  match value with
  | .bool b => .ok (.bool b)
  | .str s => .ok (.str s)
  | .int n => .ok (match signed? value with
    | some n => .int n
    | none => .float (.ofInt n))
  | .real x => .ok (.float x)
  | .arr items =>
    match items.mapM signed? with
    | some ns => .ok (.ints ns)
    | none => .error (.malformedSpec ("param '" ++ key ++ "': arrays must hold integers"))
  | other => .error (.malformedSpec ("param '" ++ key ++ "': unsupported value " ++ other.compact))

/-- The parameters for the traced program. -/
def params (o : ConversionOptions) : Except Failure Params :=
  o.inputParams.mapM fun (key, value) => do return (key, ← paramOf key value)

end ConversionOptions

end TensorGraph
