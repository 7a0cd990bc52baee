import TensorGraph.Failure
import TensorGraph.Tensor.DType
import TensorGraph.Text.Numeral

/-!
# Tensors

A tensor is an element type, the lengths of its dimensions and the bytes of its elements. Two
tensors are equal when these are, so equality is equality of bytes.
-/

namespace TensorGraph

/-- A constant array. -/
structure Tensor where
  dtype : DType
  dims : List Nat
  raw : List UInt8
  deriving DecidableEq, Repr, Inhabited

namespace Tensor

/-- The number of elements of a shape, held at the largest 64-bit word. -/
def countOf (dims : List Nat) : Nat :=
  dims.foldl (fun count d => min (count * d) Text.wordMax) 1

/-- A tensor of the given shape with every element set to `value`. -/
def filled (dims : List Nat) (dtype : DType) (value : Binary64) : Tensor :=
  { dtype, dims, raw := (List.replicate (countOf dims) (dtype.encode value)).flatten }

/-- The most bytes that can be held in one piece, the largest signed 64-bit word. -/
def heldMax : Nat := 0x7FFFFFFFFFFFFFFF

/-- `filled`, if its bytes can be held in one piece. -/
def filled? (dims : List Nat) (dtype : DType) (value : Binary64) : Option Tensor :=
  if countOf dims * dtype.size ≤ heldMax then some (filled dims dtype value) else none

/-- The size of a shape in bytes, multiplied up from the element size from left to right. There is
none as soon as the product leaves the 64-bit words. -/
def byteLength? (dims : List Nat) (dtype : DType) : Option Nat :=
  dims.foldlM (fun size d => if size * d ≤ Text.wordMax then some (size * d) else none) dtype.size

/-- Lengths in square brackets. -/
def dimsText (dims : List Nat) : String :=
  "[" ++ ", ".intercalate (dims.map toString) ++ "]"

/-- `filled?`, if the size in bytes exists. That the size is a 64-bit word does not mean that the
bytes can be held. -/
def tryFilled (dims : List Nat) (dtype : DType) (value : Binary64) :
    Except Failure (Option Tensor) :=
  match byteLength? dims dtype with
  | some _ => .ok (filled? dims dtype value)
  | none =>
    .error (.trace ("a " ++ dtype.name ++ " tensor of shape " ++ dimsText dims ++
      " is too large to materialize"))

/-- All elements one. -/
def ones (dims : List Nat) (dtype : DType) : Tensor :=
  filled dims dtype .one

/-- All elements zero. -/
def zeros (dims : List Nat) (dtype : DType) : Tensor :=
  filled dims dtype .zero

/-- A tensor without dimensions. -/
def scalar (dtype : DType) (value : Binary64) : Tensor :=
  filled [] dtype value

/-- A tensor from its elements. Their number is not compared with the shape. -/
def ofValues (dims : List Nat) (dtype : DType) (values : List Binary64) : Tensor :=
  { dtype, dims, raw := values.flatMap dtype.encode }

/-- The number of elements that the bytes hold. -/
def elementCount (t : Tensor) : Nat :=
  t.raw.length / t.dtype.size

/-- Has the tensor no dimensions? -/
def isScalar (t : Tensor) : Bool :=
  t.dims.isEmpty

theorem length_raw_filled (dims : List Nat) (dtype : DType) (value : Binary64) :
    (filled dims dtype value).raw.length = countOf dims * dtype.size := by
  simp [filled]

end Tensor

end TensorGraph
