import TensorGraph.Lowering.State

/-!
# Handlers of primitives

A handler emits the nodes that compute the outputs of an equation from its inputs. The handlers of
binary operations emit one node; any other handler is a script of steps, which keeps a list of names
that later steps refer to.
-/

namespace TensorGraph

/-- A name in a script: one that the script has kept, by its position, or a given one. -/
inductive NameRef where
  | kept (index : Nat)
  | given (name : String)
  deriving DecidableEq, Repr

/-- One step of a script. -/
inductive HandlerStep where
  /-- Keep the name of an input. -/
  | input (index : Nat)
  /-- Keep the name of an output. -/
  | output (index : Nat)
  /-- Keep a fresh name. -/
  | unique (base : String)
  /-- Keep an instance name. -/
  | instanceOf (base : String)
  /-- Keep the name of a constant. -/
  | constant (base : String) (tensor : Tensor)
  /-- Add a constant under a given name. -/
  | initializer (name : String) (tensor : Tensor)
  /-- Append a node. -/
  | node (opType : String) (name : NameRef) (inputs outputs : List NameRef)
      (attributes : List (String × Attribute))
  /-- Offer a record. -/
  | info (name : NameRef) (shape : List ShapeDim) (dtype : DType) (provenance : Provenance)
  /-- Offer the type of an output as its record. -/
  | record (index : Nat) (provenance : Provenance)
  /-- Declare an input of the level. -/
  | declareInput (name : NameRef) (shape : List ShapeDim) (dtype : DType)
  /-- Declare an output of the level. -/
  | declareOutput (name : NameRef)
  /-- Give up. -/
  | fail (message : String)
  /-- Take a snapshot. -/
  | probe
  deriving DecidableEq, Repr

/-- How a primitive is lowered. -/
inductive Handler where
  /-- One node of the given operation. -/
  | binary (opType : String)
  /-- One node of the operation `Pow`. -/
  | pow
  | script (steps : List HandlerStep)
  deriving DecidableEq, Repr

namespace NameRef

/-- The name that is meant. A name that was never kept is empty. -/
def resolve (kept : List String) : NameRef → String
  | .kept index => kept.getD index ""
  | .given name => name

end NameRef

/-- What a script works on. -/
structure HandlerCall where
  symbols : SymbolTable
  site : Site
  primitive : String
  inputs : List Atom
  outputs : List Var
  params : Params

namespace HandlerCall

/-- An input by its position. -/
def inputAt (c : HandlerCall) (index : Nat) : Lower Atom :=
  match c.inputs[index]? with
  | some atom => return atom
  | none => throw (.handler c.primitive "missing operand")

/-- An output by its position. -/
def outputAt (c : HandlerCall) (index : Nat) : Lower Var :=
  match c.outputs[index]? with
  | some v => return v
  | none => throw (.handler c.primitive "missing result")

/-- The snapshot of the state. -/
def snapshot (c : HandlerCall) (s : Lowering) : Probe :=
  { depth := c.site.depth
    site := c.site.text
    graph := s.builder.level.name
    symbols := c.symbols.names.length
    inputs := c.inputs
    bound := c.outputs.map fun v => (s.nameOf? v).isSome
    shapes := c.outputs.map fun v => c.symbols.renderShape? v.type
    params := c.params
    functions := s.builder.level.functions.map Function.name
    initializers := s.builder.initializers.entries.length
    nodes := s.builder.level.nodes.length }

/-- Run one step; the result is the name that it keeps. -/
def step (c : HandlerCall) (kept : List String) : HandlerStep → Lower (List String)
  | .input index => do return [← Lower.inputName (← c.inputAt index)]
  | .output index => do return [← Lower.outputName (← c.outputAt index)]
  | .unique base => do return [← Lower.build (Build.uniqueName base)]
  | .instanceOf base => do return [← Lower.build (Build.instanceName base)]
  | .constant base tensor => do return [← Lower.build (Build.addConstant base tensor)]
  | .initializer name tensor => do
    Lower.build (Build.addInitializer name tensor)
    return []
  | .node opType name inputs outputs attributes => do
    let names := fun refs : List NameRef => refs.map (NameRef.resolve kept)
    Lower.build (Build.addNode {
      Node.plain opType (name.resolve kept) (names inputs) (names outputs) with
        attributes := Keyed.ofList attributes })
    return []
  | .info name shape dtype provenance => do
    Lower.build (Build.registerRecord ⟨name.resolve kept, shape, dtype, provenance⟩)
    return []
  | .record index provenance => do
    Lower.recordVar c.symbols (← c.outputAt index) provenance
    return []
  | .declareInput name shape dtype => do
    Lower.build (Build.addInput (name.resolve kept) shape dtype)
    return []
  | .declareOutput name => do
    Lower.build (Build.addOutput (name.resolve kept))
    return []
  | .fail message => throw (.handler c.primitive message)
  | .probe => do
    modify fun s => { s with probes := s.probes ++ [c.snapshot s] }
    return []

/-- Run the steps of a script in order. -/
def run (c : HandlerCall) (kept : List String) : List HandlerStep → Lower Unit
  | [] => pure ()
  | s :: rest => do
    let names ← c.step kept s
    c.run (kept ++ names) rest

/-- Emit one node with two inputs. -/
def emitBinary (opType : String) (lhs rhs : Atom) (out : Var) : Lower Unit := do
  let lhs ← Lower.inputName lhs
  let rhs ← Lower.inputName rhs
  let out ← Lower.outputName out
  let name ← Lower.build (Build.uniqueName opType)
  Lower.build (Build.addNode (.plain opType name [lhs, rhs] [out]))

end HandlerCall

/-- Emit the nodes of an equation. -/
def Handler.lower (h : Handler) (c : HandlerCall) : Lower Unit :=
  match h with
  | .binary opType =>
    match c.inputs, c.outputs with
    | [lhs, rhs], [out] => HandlerCall.emitBinary opType lhs rhs out
    | inputs, outputs =>
      throw (.handler opType ("expected 2 operands and 1 result, got " ++ toString inputs.length ++
        " and " ++ toString outputs.length))
  | .pow =>
    match c.inputs, c.outputs with
    | [base, exponent], [out] => HandlerCall.emitBinary "Pow" base exponent out
    | [_, _], outputs =>
      throw (.handler "pow" ("expected 1 result, got " ++ toString outputs.length))
    | inputs, _ => throw (.handler "pow" ("expected 2 operands, got " ++ toString inputs.length))
  | .script steps => c.run [] steps

end TensorGraph
