import TensorGraph.Number.Binary64
import TensorGraph.Text.Blank

/-!
# Element types

An element type fixes the width of an element and how a number is encoded into its bytes, the least
significant first. Whole-number types take the whole part toward zero, held at their ends.
-/

namespace TensorGraph

/-- The type of a tensor's elements. -/
inductive DType where
  | f32
  | f64
  | i8
  | i32
  | i64
  | u8
  | bool
  deriving DecidableEq, Repr, Inhabited

/-- The lowest `width` bytes of a number, the least significant first. -/
def littleEndian : Nat → Nat → List UInt8
  | 0, _ => []
  | width + 1, n => UInt8.ofNat (n % 256) :: littleEndian width (n / 256)

@[simp] theorem length_littleEndian (width n : Nat) : (littleEndian width n).length = width := by
  induction width generalizing n with
  | zero => rfl
  | succ width ih => simp [littleEndian, ih]

namespace DType

/-- Bytes of an element. -/
def size : DType → Nat
  | .f32 | .i32 => 4
  | .f64 | .i64 => 8
  | .i8 | .u8 | .bool => 1

theorem size_pos (t : DType) : 0 < t.size := by
  cases t <;> decide

/-- Is it a floating-point type? -/
def isFloat : DType → Bool
  | .f32 | .f64 => true
  | _ => false

/-- The name of an element type. -/
def name : DType → String
  | .f32 => "f32"
  | .f64 => "f64"
  | .i8 => "i8"
  | .i32 => "i32"
  | .i64 => "i64"
  | .u8 => "u8"
  | .bool => "bool"

/-- An element type by its exact name. -/
def ofName? : String → Option DType
  | "f32" => some .f32
  | "f64" => some .f64
  | "i8" => some .i8
  | "i32" => some .i32
  | "i64" => some .i64
  | "u8" => some .u8
  | "bool" => some .bool
  | _ => none

/-- An element type by its name or a longer one, in any case and with blanks around it. -/
def parse? (text : String) : Option DType :=
  match String.ofList ((Text.trim text.toList).map Char.toLower) with
  | "float32" | "float" => some .f32
  | "float64" | "double" => some .f64
  | "int8" => some .i8
  | "int32" => some .i32
  | "int64" => some .i64
  | "uint8" => some .u8
  | name => ofName? name

/-- The whole-number range of a type with `width` signed bytes. -/
def encodeSigned (width : Nat) (value : Binary64) : List UInt8 :=
  let half : Int := Nat.pow 2 (8 * width - 1)
  littleEndian width ((value.clamp (-half) (half - 1)) % Nat.pow 2 (8 * width)).toNat

/-- The bytes of an element. -/
def encode (t : DType) (value : Binary64) : List UInt8 :=
  match t with
  | .f32 => littleEndian 4 value.singleBits
  | .f64 => littleEndian 8 value.bits.toNat
  | .i8 => encodeSigned 1 value
  | .i32 => encodeSigned 4 value
  | .i64 => encodeSigned 8 value
  | .u8 => littleEndian 1 (value.clamp 0 255).toNat
  | .bool => [if value.isZero then 0 else 1]

@[simp] theorem length_encode (t : DType) (value : Binary64) :
    (t.encode value).length = t.size := by
  cases t <;> simp [encode, size, encodeSigned]

end DType

end TensorGraph
