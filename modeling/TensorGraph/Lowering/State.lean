import TensorGraph.Builder.Resolution
import TensorGraph.Program.Recording

/-!
# The state of a lowering

Lowering turns a trace into a graph level. Beside the builder, its state holds the names that
variables of the current trace are bound to, what the declared outputs stood for, and what the whole
conversion counts: runs of callables and constants drawn by them, traces made, and the snapshots
that handlers ask for.
-/

namespace TensorGraph

/-- What a handler saw when it asked for a snapshot. -/
structure Probe where
  depth : Nat
  site : String
  graph : String
  symbols : Nat
  inputs : List Atom
  /-- Whether each output is bound to a name. -/
  bound : List Bool
  /-- The rendered shape of each output. -/
  shapes : List (Option (List ShapeDim))
  params : Params
  functions : List String
  initializers : Nat
  nodes : Nat
  deriving DecidableEq, Repr

/-- The state of a lowering. -/
structure Lowering where
  builder : Builder
  /-- The names that variables are bound to, by the number of the variable. -/
  bindings : List (Nat × String)
  /-- What each declared output stood for, and its type. -/
  sources : List (String × AbstractValue)
  /-- What callables have done so far. -/
  counts : Counts
  /-- The count of traces. -/
  invocations : Nat
  probes : List Probe
  deriving DecidableEq, Repr

/-- A step of lowering. -/
abbrev Lower := EStateM Failure Lowering

namespace Lowering

/-- Before anything is lowered. -/
def start (name : String) : Lowering :=
  { builder := .start name, bindings := [], sources := [], counts := .start, invocations := 0,
    probes := [] }

/-- The name that a variable is bound to. -/
def nameOf? (s : Lowering) (v : Var) : Option String :=
  s.bindings.lookup v.id

/-- Bind a variable to a name, in place of the one it may be bound to. -/
def bindVar (s : Lowering) (v : Var) (name : String) : Lowering :=
  { s with bindings := (v.id, name) :: s.bindings.filter fun entry => entry.1 != v.id }

end Lowering

namespace Lower

/-- A step of building, as a step of lowering. -/
def build {α : Type} (x : Build α) : Lower α := fun s =>
  match x s.builder with
  | .ok a builder => .ok a { s with builder }
  | .error e builder => .error e { s with builder }

/-- Attach a site to a failure of a step. -/
def locate {α : Type} (site : Site) (x : Lower α) : Lower α := fun s =>
  match x s with
  | .ok a s => .ok a s
  | .error e s => .error (e.locate site) s

/-- A failure of a step is issued by another part. -/
def issuedBy {α : Type} (issuer : String) (x : Lower α) : Lower α := fun s =>
  match x s with
  | .ok a s => .ok a s
  | .error e s => .error (e.issuedBy issuer) s

/-- Append a line to the log. -/
def say (level : LogLevel) (message : String) : Lower Unit :=
  build (Build.say level message)

/-- Append a line about the level under construction. -/
def sayHere (level : LogLevel) (message : String) : Lower Unit :=
  build (Build.sayHere level message)

/-- The name that a variable is bound to; a variable without one is bound to a fresh name. -/
def outputName (v : Var) : Lower String := do
  match (← get).nameOf? v with
  | some name => return name
  | none =>
    let name ← build (Build.uniqueName "var")
    modify fun s => s.bindVar v name
    return name

/-- The name of an operand. A variable has to be bound; a literal becomes a constant. -/
def inputName : Atom → Lower String
  | .var v => do
    match (← get).nameOf? v with
    | some name => return name
    | none => throw (.trace ("variable #" ++ toString v.id ++ " is read before it is defined"))
  | .literal t => build (Build.addConstant "const" t)

/-- Offer the type of a variable as the record of its name. A type that cannot be rendered is passed
over. -/
def recordVar (symbols : SymbolTable) (v : Var) (provenance : Provenance) : Lower Unit := do
  let name ← outputName v
  match symbols.renderShape? v.type with
  | some shape => build (Build.registerRecord ⟨name, shape, v.type.dtype, provenance⟩)
  | none => sayHere .debug ("'" ++ name ++ "' has a dim outside the symbol table, no record")

/-- Trace a callable on arguments. -/
def trace (name : String) (tracer : Tracer) (args : List TraceArg) : Lower Trace := do
  modify fun s => { s with invocations := s.invocations + 1 }
  say .debug ("tracing " ++ name ++ " on " ++ toString args.length ++ " argument(s)")
  match tracer (args.map TraceArg.type) (← get).counts with
  | .ok (result, counts) =>
    modify fun s => { s with counts }
    return result
  | .error e => throw e

/-- Run a step in a nested level, and give that level when it is finished. -/
def nested (name : String) (x : Lower Unit) : Lower Level := do
  let outer ← get
  set { outer with builder := outer.builder.child name, bindings := [], sources := [] }
  x
  let inner ← get
  set { inner with
    builder := inner.builder.resume outer.builder.level
    bindings := outer.bindings
    sources := outer.sources }
  return inner.builder.level

end Lower

end TensorGraph
