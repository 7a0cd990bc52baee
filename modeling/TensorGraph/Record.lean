import TensorGraph.Tensor.DType

/-!
# Records of shape and element type

A record says which shape and element type a name of a graph has, and how that was established. When
a second source offers a record for a name, `reconcile` decides: agreeing offers keep the higher
confidence, disagreeing ones resolve to the pinned side when exactly one side is pinned, and
conflict otherwise.
-/

namespace TensorGraph

/-- One dimension of a graph's shape. -/
inductive ShapeDim where
  | fixed (length : Nat)
  | named (name : String)
  deriving DecidableEq, Repr

/-- A dimension in words. -/
def ShapeDim.text : ShapeDim → String
  | .fixed n => toString n
  | .named name => name

/-- A shape in square brackets. -/
def shapeText (shape : List ShapeDim) : String :=
  "[" ++ ", ".intercalate (shape.map ShapeDim.text) ++ "]"

/-- How a record was established. -/
inductive Provenance where
  /-- Declared directly. -/
  | declared
  /-- Derived from the traced value after its equation was lowered. -/
  | recovered
  /-- Filled in for an output without a record. -/
  | repaired
  /-- Copied out of a nested level into its caller. -/
  | subgraph
  deriving DecidableEq, Repr

namespace Provenance

/-- How far a record is trusted. -/
def confidence : Provenance → Nat
  | .declared => 3
  | .repaired => 2
  | .recovered => 1
  | .subgraph => 0

/-- Pinned records are never given up for others. -/
def isPinned : Provenance → Bool
  | .declared | .repaired => true
  | .recovered | .subgraph => false

/-- The name of a provenance. -/
def name : Provenance → String
  | .declared => "original"
  | .recovered => "recovered"
  | .repaired => "repaired"
  | .subgraph => "subgraph"

/-- A provenance by its exact name. -/
def ofName? : String → Option Provenance
  | "original" => some .declared
  | "recovered" => some .recovered
  | "repaired" => some .repaired
  | "subgraph" => some .subgraph
  | _ => none

end Provenance

/-- The shape and element type of a name. -/
structure ValueRecord where
  name : String
  shape : List ShapeDim
  dtype : DType
  provenance : Provenance
  deriving DecidableEq, Repr

namespace ValueRecord

/-- Does the record give this shape and element type? -/
def hasType (r : ValueRecord) (shape : List ShapeDim) (dtype : DType) : Bool :=
  r.shape == shape && r.dtype == dtype

/-- The same record for another name. -/
def renamed (r : ValueRecord) (name : String) : ValueRecord :=
  { r with name }

/-- The type that a record gives, in words. -/
def typeText (r : ValueRecord) : String :=
  r.dtype.name ++ shapeText r.shape

/-- A record in words. -/
def text (r : ValueRecord) : String :=
  r.name ++ ": " ++ r.typeText ++ " (" ++ r.provenance.name ++ ")"

end ValueRecord

/-- What becomes of an offered record. -/
inductive Reconciled where
  /-- There was none. -/
  | insert
  /-- The existing one stays. -/
  | keep
  /-- The existing one stays, and the disagreement is reported. -/
  | keepReported (detail : String)
  /-- The offered one replaces it. -/
  | upgrade
  /-- The offered one replaces it, and the disagreement is reported. -/
  | upgradeReported (detail : String)
  /-- Neither can be preferred. -/
  | conflict (detail : String)
  deriving DecidableEq, Repr

/-- The disagreement of two records. -/
def disagreement (existing offered : ValueRecord) : String :=
  existing.provenance.name ++ " says " ++ existing.typeText ++ ", " ++
    offered.provenance.name ++ " says " ++ offered.typeText

/-- Decide what becomes of a record that is offered for a name with or without a record. -/
def reconcile (existing : Option ValueRecord) (offered : ValueRecord) : Reconciled :=
  match existing with
  | none => .insert
  | some r =>
    if r.hasType offered.shape offered.dtype then
      if r.provenance.confidence < offered.provenance.confidence then .upgrade else .keep
    else
      match r.provenance.isPinned, offered.provenance.isPinned with
      | true, false => .keepReported (disagreement r offered)
      | false, true => .upgradeReported (disagreement r offered)
      | _, _ => .conflict (disagreement r offered)

/-! ## Records by name -/

/-- The record of a name in a list of records. -/
def findRecord? (records : List ValueRecord) (name : String) : Option ValueRecord :=
  records.find? fun r => r.name == name

/-- Put a record into a list that is sorted by name, in place of the one with its name. -/
def putRecord (r : ValueRecord) : List ValueRecord → List ValueRecord
  | [] => [r]
  | s :: rest =>
    if r.name == s.name then r :: rest
    else if r.name < s.name then r :: s :: rest
    else s :: putRecord r rest

/-- Looking up the name of a record that was put finds that record. -/
theorem findRecord?_putRecord_self (r : ValueRecord) (records : List ValueRecord) :
    findRecord? (putRecord r records) r.name = some r := by
  induction records with
  | nil => simp [putRecord, findRecord?]
  | cons s rest ih =>
    simp only [putRecord]
    split
    · simp [findRecord?]
    · split
      · simp [findRecord?]
      · next h _ =>
        have hs : (s.name == r.name) = false := by
          simp only [beq_iff_eq] at h
          simpa using fun e => h e.symm
        simpa [findRecord?, hs] using ih

/-- Putting a record leaves every other name as it was. -/
theorem findRecord?_putRecord_of_ne {r : ValueRecord} {name : String} (h : r.name ≠ name)
    (records : List ValueRecord) :
    findRecord? (putRecord r records) name = findRecord? records name := by
  have hr : (r.name == name) = false := by simpa using h
  induction records with
  | nil => simp [putRecord, findRecord?, hr]
  | cons s rest ih =>
    simp only [putRecord]
    split
    · next e =>
      have hs : (s.name == name) = false := by
        simp only [beq_iff_eq] at e
        simpa [← e] using h
      simp [findRecord?, hr, hs]
    · split
      · simp [findRecord?, hr]
      · cases hs : s.name == name
        · simpa [findRecord?, hs] using ih
        · simp [findRecord?, hs]

end TensorGraph
