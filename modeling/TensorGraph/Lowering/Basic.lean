import TensorGraph.Lowering.Handler
import TensorGraph.Text.Quoted

/-!
# Lowering traces

`lowerTrace` lowers a trace into the level under construction: inputs, constants, equations in
order, then the declared outputs. An equation that calls a callable is lowered by `lowerCall`: the
callee is traced again, lowered into a nested level, and replaced by one node that calls the
function which that level becomes. Levels with the same body become one function.

`callLowerings` makes the lowerings of calls from the first callable of a program to the last, so
that each one is made from those its own equations need.
-/

namespace TensorGraph

/-- What lowering looks up. -/
structure Environment where
  /-- The handler of a primitive. -/
  handler? : String → Option Handler
  symbols : SymbolTable

/-- Lower an equation that calls a callable, at the level of a site. -/
abbrev CallLowering := Site → Equation → Lower Unit

/-- Every output of an equation has to be bound, and its type is offered as a record. -/
def recordOutputs (env : Environment) (primitive : String) : List Var → Lower Unit
  | [] => pure ()
  | v :: rest => do
    if ((← get).nameOf? v).isNone then
      throw (.handler primitive
        ("output variable #" ++ toString v.id ++ " was never bound to a tensor"))
    Lower.recordVar env.symbols v .recovered
    recordOutputs env primitive rest

/-- Lower an equation that applies a primitive. -/
def lowerPrimitive (env : Environment) (site : Site) (e : Equation) : Lower Unit :=
  match env.handler? e.primitive with
  | none => throw (Failure.of (.unknownPrimitive e.primitive))
  | some h => do
    Lower.sayHere .debug ("lowering " ++ e.primitive)
    h.lower { symbols := env.symbols, site, primitive := e.primitive,
              inputs := e.inputs, outputs := e.outputs, params := e.params }

/-- Lower an equation. -/
def lowerEquation (env : Environment) (calls : List CallLowering) (site : Site) (e : Equation) :
    Lower Unit := do
  match e.callee? with
  | none => lowerPrimitive env site e
  | some index =>
    match calls[index]? with
    | some lowerCall => lowerCall site e
    | none => throw (.trace ("program has no callable " ++ toString index))
  recordOutputs env e.primitive e.outputs

/-- Lower equations in order, the first of which has the given position. -/
def lowerEquations (env : Environment) (calls : List CallLowering) (site : Site) :
    Nat → List Equation → Lower Unit
  | _, [] => pure ()
  | index, e :: rest => do
    Lower.locate (site.withEquation index e.primitive) (lowerEquation env calls site e)
    lowerEquations env calls site (index + 1) rest

/-- Declare the inputs of a trace. -/
def lowerInputs (env : Environment) (site : Site) : List Var → Lower Unit
  | [] => pure ()
  | v :: rest => do
    let name ← Lower.outputName v
    match env.symbols.renderShape? v.type with
    | none =>
      throw ((Failure.trace
        ("input '" ++ name ++ "' uses a symbolic dim that was never declared")).locate site)
    | some shape => Lower.build (Build.addInput name shape v.type.dtype)
    lowerInputs env site rest

/-- Bind the constants of a trace to constants of the table. -/
def lowerConstants : List (Var × Tensor) → Lower Unit
  | [] => pure ()
  | (v, tensor) :: rest => do
    let name ← Lower.build (Build.addConstant "const" tensor)
    modify fun s => s.bindVar v name
    lowerConstants rest

/-- Would an output of this name be an input, a constant or another output too? -/
def Builder.isAliased (b : Builder) (name : String) : Bool :=
  b.level.isInput name || b.isInitializer name || b.level.outputs.contains name

/-- Declare one output. It gets a name of its own behind an identity node if its name stands for
something else. -/
def declareOutput (atom : Atom) : Lower Unit := do
  let source ← Lower.inputName atom
  let declared ←
    if (← get).builder.isAliased source then do
      let out ← Lower.build (Build.uniqueName "out")
      let node ← Lower.build (Build.uniqueName "Identity")
      Lower.build (Build.addNode (.plain "Identity" node [source] [out]))
      pure out
    else pure source
  Lower.build (Build.addOutput declared)
  modify fun s => { s with sources := s.sources ++ [(source, atom.type)] }

/-- Lower a trace into the level under construction. -/
def lowerTrace (env : Environment) (calls : List CallLowering) (site : Site) (t : Trace) :
    Lower Unit := do
  lowerInputs env site t.inputs
  lowerConstants t.constants
  lowerEquations env calls site 0 t.equations
  Lower.locate site (t.outputs.forM declareOutput)

/-- Give every declared output a record, from position `index` on. -/
def resolveFrom (env : Environment) : Nat → List String → Lower Unit
  | _, [] => pure ()
  | index, name :: rest => do
    let source? := (← get).sources[index]?
    let expected := (source?.map Prod.fst).getD name
    match ← Lower.build (Build.resolve env.symbols name expected (source?.map Prod.snd)) with
    | .resolved r => Lower.build (Build.registerRecord { r with name })
    | .conflict detail => throw (.conflict name detail)
    | .unresolvable detail => throw (.unresolvedOutput name detail)
    resolveFrom env (index + 1) rest

/-- Give every declared output a record. -/
def resolveOutputs (env : Environment) (site : Site) : Lower Unit := do
  Lower.locate site (resolveFrom env 0 (← get).builder.level.outputs)

/-- Bind the outputs of a call and offer the records of the nested level's outputs for them. -/
def adoptOutputs (sub : Level) : List (Var × String) → Lower (List String)
  | [] => pure []
  | (v, inner) :: rest => do
    let outer ← Lower.outputName v
    match sub.record? inner with
    | none => throw (.unresolvedOutput inner ("declared by '" ++ sub.name ++ "'"))
    | some r => Lower.build (Build.registerRecord ⟨outer, r.shape, r.dtype, .subgraph⟩)
    return outer :: (← adoptOutputs sub rest)

/-- The name of the function that a nested level becomes: one with the same body, or a new one. -/
def functionFor (c : Callable) (callName : String) (f : Function) : Lower String := do
  match (← get).builder.level.functionWithBody? f with
  | some known =>
    Lower.sayHere .debug (callName ++ " reuses function " ++ known)
    return known
  | none =>
    let name ← Lower.build (Build.instanceName (c.baseName ++ "_fn"))
    Lower.say .info ("Registered function '" ++ name ++ "' for " ++ c.name ++ " (" ++
      toString f.nodes.length ++ " nodes, " ++ toString f.paramCount ++ " captured constants)")
    Lower.build (Build.registerFunction { f with name })

/-- Lower a call of `c`, made from its tracer and from the lowerings of the calls that its own
equations make. -/
def lowerCall (env : Environment) (c : Callable) (tracer : Tracer) (calls : List CallLowering) :
    CallLowering :=
  fun site e => do
    Lower.sayHere .debug ("nested call to " ++ c.name)
    let callName ← Lower.build (Build.instanceName c.baseName)
    let data ← e.inputs.mapM Lower.inputName
    let t ← Lower.issuedBy c.name (Lower.trace c.name tracer (e.inputs.map Atom.exampleArg))
    if t.outputs.length ≠ e.outputs.length then
      throw (.unresolvedOutput callName ("call site expects " ++ toString e.outputs.length ++
        " outputs, '" ++ c.name ++ "' produces " ++ toString t.outputs.length))
    let inside := site.inside callName
    let sub ← Lower.nested (callName ++ "_graph") do
      lowerTrace env calls inside t
      resolveOutputs env inside
    let captured := sub.referencedInitializers (← get).builder.initializers
    Lower.sayHere .debug (callName ++ " captures " ++ Text.quotedList captured)
    let outputs ← adoptOutputs sub (e.outputs.zip sub.outputs)
    let f ← Lower.build
      (Build.ofExcept (sub.toFunction callName captured (← get).builder.initializers))
    Lower.build (Build.mergeFunctions sub.functions)
    let function ← functionFor c callName f
    Lower.build (Build.addCall function data captured outputs callName c.name)

/-- The lowerings of calls of the callables of a program, in order. -/
def callLowerings (env : Environment) (settings : Params) (program : Program) : List CallLowering :=
  (program.zip (program.tracers settings)).foldl
    (fun calls (c, _, tracer) => calls ++ [lowerCall env c tracer calls]) []

end TensorGraph
