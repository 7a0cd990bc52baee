import TensorGraph.Json.Printer
import TensorGraph.Shape.Symbols
import TensorGraph.Text.Blank

/-!
# Declared input shapes

An input is declared by a list of entries, each a length or the name of a symbol, and an element
type. A spec is written as text, `B,4` or `(3,)`, or as JSON. `InputSpec.abstractAll` turns specs
into the types of traced values, one symbol for each name.
-/

namespace TensorGraph

/-- One entry of a declared shape. -/
inductive DimSpec where
  | fixed (length : Nat)
  | symbol (name : String)
  deriving DecidableEq, Repr

/-- Is the text an ASCII identifier? -/
def isSymbolName : List Char → Bool
  | [] => false
  | c :: cs => (c.isAlpha || c == '_') && cs.all fun d => d.isAlphanum || d == '_'

namespace DimSpec

/-- An entry in words. -/
def text : DimSpec → String
  | .fixed n => toString n
  | .symbol name => name

/-- Is the entry a symbol? -/
def isSymbol : DimSpec → Bool
  | .fixed _ => false
  | .symbol _ => true

/-- Read an entry, with blanks around it. -/
def parse (cs : List Char) : Except Failure DimSpec :=
  let entry := Text.trim cs
  match Text.readNumeral? Text.wordMax entry with
  | some n => .ok (.fixed n)
  | none =>
    if isSymbolName entry then .ok (.symbol (String.ofList entry))
    else .error (.malformedSpec
      ("shape entry '" ++ String.ofList entry ++
        "' is neither a non-negative integer nor a symbol name"))

/-- Read an entry from JSON. -/
def ofJson (value : Json) : Except Failure DimSpec :=
  let notLength :=
    Failure.malformedSpec ("shape entry " ++ value.compact ++ " is not a non-negative integer")
  let notSymbol :=
    Failure.malformedSpec
      ("shape entry " ++ value.compact ++ " is neither an integer nor a symbol name")
  match value with
  | .int n => if 0 ≤ n then .ok (.fixed n.toNat) else .error notLength
  | .real _ => .error notLength
  | .str s => if isSymbolName s.toList then .ok (.symbol s) else .error notSymbol
  | _ => .error notSymbol

end DimSpec

/-- A declared input. -/
structure InputSpec where
  shape : List DimSpec
  dtype : DType
  deriving DecidableEq, Repr

namespace InputSpec

/-- An input with fixed lengths. -/
def fixed (dims : List Nat) (dtype : DType) : InputSpec :=
  ⟨dims.map .fixed, dtype⟩

/-- The entries of a written shape: what stands between the outer blanks and parentheses. -/
def body (cs : List Char) : List Char :=
  Text.trim (Text.dropEndWhile (· == ')') ((Text.trim cs).dropWhile (· == '(')))

/-- One comma at the end does not count. -/
def dropComma (cs : List Char) : List Char :=
  if cs.getLast? == some ',' then cs.dropLast else cs

/-- Read a shape: entries divided by commas. A blank shape has no entries; a blank entry is a
fault. -/
def parse (text : String) (dtype : DType) : Except Failure InputSpec := do
  let entries := body text.toList
  if entries.isEmpty then return ⟨[], dtype⟩
  let shape ← (Text.pieces (· == ',') (dropComma entries)).mapM fun entry =>
    if (Text.trim entry).isEmpty then
      .error (.malformedSpec ("shape '" ++ Text.trimmed text ++ "' has an empty entry"))
    else DimSpec.parse entry
  return ⟨shape, dtype⟩

/-- Read a shape from JSON: a list of entries, or a single entry. -/
def ofJson (value : Json) (dtype : DType) : Except Failure InputSpec := do
  let entries := match value with
    | .arr items => items
    | other => [other]
  return ⟨← entries.mapM DimSpec.ofJson, dtype⟩

/-- A shape in words. -/
def text (spec : InputSpec) : String :=
  ",".intercalate (spec.shape.map DimSpec.text)

end InputSpec

namespace SymbolTable

/-- The dimensions of a declared shape, with its symbols numbered. -/
def abstractShape (table : SymbolTable) : List DimSpec → SymbolTable × List Dim
  | [] => (table, [])
  | .fixed n :: rest =>
    let (table, dims) := table.abstractShape rest
    (table, .known n :: dims)
  | .symbol name :: rest =>
    let (table, id) := table.intern name
    let (table, dims) := table.abstractShape rest
    (table, .symbolic id :: dims)

/-- The types of declared inputs, with their symbols numbered. -/
def abstractSpecs (table : SymbolTable) : List InputSpec → SymbolTable × List AbstractValue
  | [] => (table, [])
  | spec :: rest =>
    let (table, shape) := table.abstractShape spec.shape
    let (table, values) := table.abstractSpecs rest
    (table, ⟨shape, spec.dtype⟩ :: values)

end SymbolTable

/-- The types of declared inputs and the table of their symbols. Every occurrence of a name, in any
input, is the same symbol. -/
def InputSpec.abstractAll (specs : List InputSpec) : SymbolTable × List AbstractValue :=
  SymbolTable.empty.abstractSpecs specs

example : (InputSpec.abstractAll [⟨[.symbol "B", .fixed 4], .f32⟩, ⟨[.symbol "B"], .i64⟩]) =
    (⟨["B"], [("B", 0)]⟩, [⟨[.symbolic 0, .known 4], .f32⟩, ⟨[.symbolic 0], .i64⟩]) := by decide

end TensorGraph
