import TensorGraph.Builder.Initializers
import TensorGraph.Builder.NameOrder
import TensorGraph.Keyed
import TensorGraph.NamePool

/-!
# Graph levels

A level is what one graph body has gathered so far: nodes, declared inputs and outputs, records and
the functions it knows. A finished level becomes a function by `Level.toFunction`, which replaces
the names of the level by names that only count positions, so that two levels with the same
structure become functions with the same body.
-/

namespace TensorGraph

/-- One graph body under construction. -/
structure Level where
  name : String
  inputs : List String
  outputs : List String
  nodes : List Node
  /-- In the order of the names, one for each. -/
  records : List ValueRecord
  functions : List Function
  deriving DecidableEq, Repr

/-- A name inside a function, by what it stands for and its position. -/
inductive LocalName where
  | input (index : Nat)
  | param (index : Nat)
  | output (index : Nat)
  | temporary (index : Nat)
  deriving DecidableEq, Repr

namespace LocalName

/-- A local name in words. -/
def text : LocalName → String
  | .input i => numbered "in" i
  | .param i => numbered "param" i
  | .output i => numbered "out" i
  | .temporary i => numbered "t" i

/-- Inputs come before parameters, these before outputs, and temporaries last; then positions
count. -/
def key : LocalName → Nat × Nat
  | .input i => (0, i)
  | .param i => (1, i)
  | .output i => (2, i)
  | .temporary i => (3, i)

/-- Does one local name come before another, or at the same place? -/
def le (a b : LocalName) : Bool :=
  a.key.1 < b.key.1 || (a.key.1 == b.key.1 && a.key.2 ≤ b.key.2)

end LocalName

/-- The local names of the names of a level. -/
abbrev Renaming := List (String × LocalName)

namespace Renaming

/-- Give a name a local name, in place of the one it may have. -/
def set (r : Renaming) (name : String) (localName : LocalName) : Renaming :=
  Keyed.set name localName r

/-- Give a name a local name, unless it has one. -/
def setNew (r : Renaming) (name : String) (localName : LocalName) : Renaming :=
  match r.lookup name with
  | some _ => r
  | none => r.set name localName

/-- The text of a name's local name, or the name itself if it has none. -/
def apply (r : Renaming) (name : String) : String :=
  match r.lookup name with
  | some localName => localName.text
  | none => name

/-- Number names by their positions. -/
def setAll (r : Renaming) (f : Nat → LocalName) (names : List String) : Renaming :=
  names.zipIdx.foldl (fun r (name, i) => r.set name (f i)) r

/-- Number names by their positions, except those that have a local name. -/
def setAllNew (r : Renaming) (f : Nat → LocalName) (names : List String) : Renaming :=
  names.zipIdx.foldl (fun r (name, i) => r.setNew name (f i)) r

/-- Give the names without a local name the next temporary ones, from number `next` on. -/
def addTemporaries (r : Renaming) (next : Nat) : List String → Renaming × Nat
  | [] => (r, next)
  | name :: rest =>
    match r.lookup name with
    | some _ => r.addTemporaries next rest
    | none => (r.set name (.temporary next)).addTemporaries (next + 1) rest

/-- Rename the nodes from position `index` on. Outputs of a node get temporary names before its
inputs are looked up; a node is named by its operation and position. -/
def renameNodes (r : Renaming) (next index : Nat) : List Node → Renaming × List Node
  | [] => (r, [])
  | n :: rest =>
    let (r, next) := r.addTemporaries next n.outputs
    let renamed := { n with
      name := numbered n.opType index, inputs := n.inputs.map r.apply, outputs :=
        n.outputs.map r.apply }
    let (final, nodes) := r.renameNodes next (index + 1) rest
    (final, renamed :: nodes)

end Renaming

namespace Level

/-- An empty level. -/
def empty (name : String) : Level :=
  { name, inputs := [], outputs := [], nodes := [], records := [], functions := [] }

/-- Is the name a declared input? -/
def isInput (l : Level) (name : String) : Bool :=
  l.inputs.contains name

/-- The record of a name. -/
def record? (l : Level) (name : String) : Option ValueRecord :=
  findRecord? l.records name

/-- The function with a name. -/
def function? (l : Level) (name : String) : Option Function :=
  findFunction? l.functions name

/-- The name of the first function with the same body. -/
def functionWithBody? (l : Level) (f : Function) : Option String :=
  (l.functions.find? fun g => g.sameBody f).map Function.name

/-- The constants that nodes of the level read, each once, in the order of generated names. -/
def referencedInitializers (l : Level) (table : InitializerTable) : List String :=
  ((l.nodes.flatMap Node.inputs).filter table.contains).eraseDups.mergeSort nameLe

/-- The records of the parameters of a function, with their local names. A parameter has to be a
constant. -/
def paramRecords (table : InitializerTable) :
    Nat → List String → Except Failure (List (LocalName × ValueRecord))
  | _, [] => .ok []
  | index, param :: rest =>
    match table.get? param with
    | none => .error (.unresolvedOutput param "captured constant is not an initializer")
    | some tensor => do
      let others ← paramRecords table (index + 1) rest
      let localName := LocalName.param index
      return (localName, ⟨localName.text, tensor.dims.map .fixed, tensor.dtype, .declared⟩) ::
        others

/-- The records of the renamed names that have one, with their local names. -/
def renamedRecords (l : Level) (r : Renaming) : List (LocalName × ValueRecord) :=
  r.filterMap fun (name, localName) => (l.record? name).map fun record =>
    (localName, record.renamed localName.text)

/-- The local names of inputs, parameters and outputs. A name that is several of these goes by the
last parameter that it is, or else the last input, or else the first output. -/
def interfaceNames (l : Level) (params : List String) : Renaming :=
  let inputs := Renaming.setAll [] .input l.inputs
  let withParams := inputs.setAll .param params
  withParams.setAllNew .output l.outputs

/-- The level as a function whose last inputs are `params`. Every output has to have a record. -/
def toFunction (l : Level) (name : String) (params : List String) (table : InitializerTable) :
    Except Failure Function := do
  match l.outputs.find? fun o => (l.record? o).isNone with
  | some output => throw (.unresolvedOutput output ("declared by '" ++ l.name ++ "'"))
  | none => pure ()
  let paramRecords ← paramRecords table 0 params
  let (names, nodes) := (l.interfaceNames params).renameNodes 0 0 l.nodes
  let records := (paramRecords ++ l.renamedRecords names).mergeSort fun a b => a.1.le b.1
  return {
    name
    domain := functionDomain
    inputs := (List.range l.inputs.length).map (LocalName.text ∘ .input) ++
      (List.range params.length).map (LocalName.text ∘ .param)
    paramCount := params.length
    outputs := l.outputs.map names.apply
    nodes
    records := records.map Prod.snd }

end Level

end TensorGraph
