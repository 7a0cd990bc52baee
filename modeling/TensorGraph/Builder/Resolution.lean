import TensorGraph.Builder.Basic
import TensorGraph.Shape.Symbols

/-!
# Records of outputs

Every declared output needs a record. One that it has already is kept; otherwise the type of the
traced value is taken, if it can be rendered; otherwise the record of the name that the output stood
for before it was renamed.
-/

namespace TensorGraph

/-- What was found for an output. -/
inductive Resolution where
  | resolved (record : ValueRecord)
  | conflict (detail : String)
  | unresolvable (detail : String)
  deriving DecidableEq, Repr

/-- Find the record of the output `name`, which stood for `expected` and has the type `value?`. -/
def Level.resolve (l : Level) (symbols : SymbolTable) (name expected : String)
    (value? : Option AbstractValue) :
    Resolution :=
  match l.record? name with
  | some r => .resolved r
  | none =>
    match value?.bind fun v => (symbols.renderShape? v).map fun shape => (shape, v.dtype),
      l.record? expected with
    | some (shape, dtype), some r =>
      if r.hasType shape dtype then .resolved ⟨name, shape, dtype, .repaired⟩
      else .conflict ("source variable says " ++ dtype.name ++ shapeText shape ++
        ", positional output '" ++ expected ++ "' says " ++ r.typeText)
    | some (shape, dtype), none => .resolved ⟨name, shape, dtype, .repaired⟩
    | none, some r => .resolved { r with name, provenance := .repaired }
    | none, none =>
      .unresolvable ("no record, no renderable source type, no positional record under '" ++
        expected ++ "'")

/-- The record by which an output is typed only because it stood for another name. -/
def Level.borrowed? (l : Level) (symbols : SymbolTable) (name expected : String)
    (value? : Option AbstractValue) :
    Option ValueRecord :=
  if (l.record? name).isNone && (value?.bind symbols.renderShape?).isNone && expected != name then
    l.record? expected
  else none

/-- `Level.resolve` for the level under construction. A record borrowed from another name is
reported. -/
def Build.resolve (symbols : SymbolTable) (name expected : String) (value? : Option AbstractValue) :
    Build Resolution := do
  let level := (← get).level
  match level.borrowed? symbols name expected value? with
  | some r =>
    sayHere .warn ("output '" ++ name ++ "' typed from positional output '" ++ expected ++ "' (" ++
      r.text ++ ")")
  | none => pure ()
  return level.resolve symbols name expected value?

end TensorGraph
