import TensorGraph.Conversion.Options
import TensorGraph.Lowering.Basic
import TensorGraph.Lowering.Registry
import TensorGraph.Model.DeadNodes
import TensorGraph.Shape.Spec

/-!
# Converting programs

A conversion traces a program on its declared inputs, lowers the trace to a model, drops the
constants that nothing reads, and runs an optimizer over the model if the options ask for it.
-/

namespace TensorGraph

/-- What a conversion leaves behind, whether it succeeds or not. -/
structure Outcome where
  result : Except Failure Model
  log : Log
  /-- The number of traces made. -/
  invocations : Nat
  probes : List Probe

/-- A conversion that failed before it started. -/
def Outcome.refused (e : Failure) : Outcome :=
  { result := .error e, log := [], invocations := 0, probes := [] }

/-- Append lines to the log. -/
def Lower.sayAll (lines : Log) : Lower Unit :=
  modify fun s => { s with builder := { s.builder with log := s.builder.log ++ lines } }

/-- Trace a program and lower the trace to a model. -/
def lowerProgram (registry : Registry) (program : Program) (entry : Callable)
    (inputs : List InputSpec) (options : ConversionOptions) : Lower Model := do
  Lower.say .info ("Converting " ++ entry.name ++ " to model '" ++ options.modelName ++ "'")
  let settings ← Lower.build (Build.ofExcept options.params)
  let (symbols, types) := InputSpec.abstractAll inputs
  if !symbols.names.isEmpty then
    Lower.say .debug (toString symbols.names.length ++ " symbolic dim(s) declared")
  Lower.say .info ("Tracing " ++ entry.name)
  let t ← Lower.trace entry.name (entry.tracer settings (program.tracers settings))
    (types.map .abstract)
  Lower.say .info ("Building graph (" ++ toString t.equations.length ++ " equations)")
  let env : Environment := ⟨registry.handler?, symbols⟩
  lowerTrace env (callLowerings env settings program) .top t
  resolveOutputs env .top
  Lower.build (Build.finish options.modelName options.opset)

/-- Drop unused constants, and optimize if the options ask for it. -/
def finishModel (optimizer : Optimizer) (options : ConversionOptions) (m : Model) :
    Lower Model := do
  Lower.sayAll m.pruneLog
  let unused := m.unusedInitializers.length
  if 0 < unused then
    Lower.say .debug ("removed " ++ toString unused ++ " unused initializer(s)")
  let m := m.prune
  let m ← if options.optimize then do
      Lower.say .info ("Optimizing with " ++ optimizer.name)
      Lower.sayAll (optimizer.log m)
      pure (optimizer.optimize m)
    else pure m
  Lower.say .info ("Done: " ++ toString m.graph.nodes.length ++ " nodes, " ++
    toString m.graph.initializers.length ++ " initializers, " ++ toString m.functions.length ++
    " functions")
  return m

/-- Convert a program: the callables that its entry can call, and the entry. -/
def convert (registry : Registry) (optimizer : Optimizer) (program : Program)
    (inputs : List InputSpec) (options : ConversionOptions) : Outcome :=
  match program.getLast? with
  | none => .refused (.trace "program has no callable")
  | some entry =>
    let steps : Lower Model := do
      let m ← lowerProgram registry program.dropLast entry inputs options
      finishModel optimizer options m
    match steps (.start options.modelName) with
    | .ok m s => ⟨.ok m, s.builder.log, s.invocations, s.probes⟩
    | .error e s => ⟨.error e, s.builder.log, s.invocations, s.probes⟩

/-- Convert with the built-in primitives on shapes that all have the default element type. -/
def convertShapes (program : Program) (shapes : List (List DimSpec)) (options : ConversionOptions) :
    Outcome :=
  convert .builtin (if options.optimize then .deadNodeElimination else .noop) program
    (shapes.map fun shape => ⟨shape, options.defaultDtype⟩) options

/-- `convertShapes` on shapes that are given as JSON, as a list of shapes. -/
def convertJson (program : Program) (shapes : Json) (options : ConversionOptions) : Outcome :=
  match shapes with
  | .arr items =>
    match items.mapM fun item => InputSpec.ofJson item options.defaultDtype with
    | .ok specs => convertShapes program (specs.map InputSpec.shape) options
    | .error e => .refused e
  | other => .refused (.malformedSpec ("expected a list of shapes, got " ++ other.compact))

end TensorGraph
