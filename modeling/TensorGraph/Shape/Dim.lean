import TensorGraph.Tensor.Basic

/-!
# Dimensions of traced values

A dimension is a known length or a symbol that stands for one unknown length. Symbols are numbered
by 32-bit words. An `AbstractValue` is the type of a traced value: its shape and element type. Two
shapes are broadcast aligned at their last dimensions, where a symbol matches only itself or a known
one.
-/

namespace TensorGraph

/-- One dimension of a traced value. -/
inductive Dim where
  | known (length : Nat)
  | symbolic (id : UInt32)
  deriving DecidableEq, Repr

namespace Dim

/-- A dimension in words. -/
def text : Dim → String
  | .known n => toString n
  | .symbolic id => "s" ++ toString id.toNat

/-- The length, if it is known. -/
def length? : Dim → Option Nat
  | .known n => some n
  | .symbolic _ => none

/-- The dimension that two dimensions broadcast to. -/
def join? (a b : Dim) : Option Dim :=
  if a = b then some a
  else if a = .known 1 then some b
  else if b = .known 1 then some a
  else none

end Dim

/-- Broadcast two shapes that are written from their last dimension to the first. -/
def broadcastBack? : List Dim → List Dim → Option (List Dim)
  | [], back => some back
  | back, [] => some back
  | a :: lhs, b :: rhs =>
    match Dim.join? a b, broadcastBack? lhs rhs with
    | some d, some rest => some (d :: rest)
    | _, _ => none

/-- The shape that two shapes broadcast to. -/
def broadcast? (lhs rhs : List Dim) : Option (List Dim) :=
  (broadcastBack? lhs.reverse rhs.reverse).map List.reverse

/-- Shape and element type of a traced value. -/
structure AbstractValue where
  shape : List Dim
  dtype : DType
  deriving DecidableEq, Repr

namespace AbstractValue

/-- The type of a value with known lengths. -/
def known (dims : List Nat) (dtype : DType) : AbstractValue :=
  ⟨dims.map .known, dtype⟩

/-- The type of a value without dimensions. -/
def scalar (dtype : DType) : AbstractValue :=
  ⟨[], dtype⟩

/-- The number of dimensions. -/
def rank (v : AbstractValue) : Nat :=
  v.shape.length

/-- The lengths, if all of them are known. -/
def knownDims? (v : AbstractValue) : Option (List Nat) :=
  v.shape.mapM Dim.length?

/-- A type in words. -/
def text (v : AbstractValue) : String :=
  v.dtype.name ++ "[" ++ ",".intercalate (v.shape.map Dim.text) ++ "]"

end AbstractValue

example : broadcast? [.symbolic 0, .known 4] [.known 4] = some [.symbolic 0, .known 4] := by decide
example : broadcast? [.known 3] [.known 4] = none := by decide
example : broadcast? [.symbolic 0] [.symbolic 1] = none := by decide

end TensorGraph
