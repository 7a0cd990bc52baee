/-!
# Binary floating-point numbers by their bits

A `Binary64` is the 64-bit word of an IEEE 754 binary64 number. Everything is computed exactly in
natural numbers: a finite magnitude is `significand * 2 ^ exponent`, and a quotient is brought back
into a format by `Format.round`, to the nearest representable number with ties to the even one. No
machine float takes part.
-/

namespace TensorGraph

/-- A binary interchange format, given by what its magnitudes need. -/
structure Format where
  /-- Bits of a significand, the leading one included. -/
  precision : Nat
  /-- The least exponent is `-lowest`. -/
  lowest : Nat
  /-- The magnitude bits of infinity. -/
  infinity : Nat

namespace Format

/-- Single precision. -/
def single : Format := ⟨24, 149, 0x7F800000⟩

/-- Double precision. -/
def double : Format := ⟨53, 1074, 0x7FF0000000000000⟩

/-- Numerator and denominator of `num / (den * 2 ^ e)`. -/
def scaled (num den : Nat) (e : Int) : Nat × Nat :=
  (num * Nat.pow 2 (-e).toNat, den * Nat.pow 2 e.toNat)

/-- The exponent at which `num / den` has a significand of full precision, or the least one. -/
def exponentOf (f : Format) (num den : Nat) : Int :=
  let e : Int := (num.log2 : Int) - den.log2 - f.precision
  let (n, d) := scaled num den e
  max (if n / d < Nat.pow 2 f.precision then e else e + 1) (-f.lowest)

/-- The quotient `n / d` rounded to a whole number, a tie to the even one. -/
def roundQuotient (n d : Nat) : Nat :=
  let q := n / d
  let r := n % d
  if 2 * r < d then q else if d < 2 * r then q + 1 else q + q % 2

/-- The magnitude bits of the number of the format that is nearest to `num / den`. -/
def round (f : Format) (num den : Nat) : Nat :=
  if num = 0 then 0
  else
    let e := f.exponentOf num den
    let (n, d) := scaled num den e
    min ((e + f.lowest).toNat * Nat.pow 2 (f.precision - 1) + roundQuotient n d) f.infinity

end Format

/-- The word of a binary64 number. -/
structure Binary64 where
  bits : UInt64
  deriving DecidableEq, Repr, Inhabited

namespace Binary64

/-- Is the sign bit set? -/
def negative (x : Binary64) : Bool :=
  0x8000000000000000 ≤ x.bits.toNat

/-- The bits below the sign. -/
def magnitude (x : Binary64) : Nat :=
  x.bits.toNat % 0x8000000000000000

/-- A number from its sign and its magnitude bits. -/
def ofMagnitude (negative : Bool) (magnitude : Nat) : Binary64 :=
  ⟨UInt64.ofNat ((if negative then 0x8000000000000000 else 0) + magnitude)⟩

/-- Is it no number? -/
def isNaN (x : Binary64) : Bool :=
  Format.double.infinity < x.magnitude

/-- Is it plus or minus infinity? -/
def isInfinite (x : Binary64) : Bool :=
  x.magnitude == Format.double.infinity

/-- Is it plus or minus zero? -/
def isZero (x : Binary64) : Bool :=
  x.magnitude == 0

/-- Significand and exponent of a finite magnitude: its value is `significand * 2 ^ exponent`. -/
def parts (x : Binary64) : Nat × Int :=
  let e : Nat := x.magnitude / 0x10000000000000
  let f : Nat := x.magnitude % 0x10000000000000
  if e = 0 then (f, -1074) else (0x10000000000000 + f, (e : Int) - 1075)

/-- A finite magnitude as a quotient of whole numbers. -/
def ratio (x : Binary64) : Nat × Nat :=
  let (m, e) := x.parts
  (m * Nat.pow 2 e.toNat, Nat.pow 2 (-e).toNat)

/-- The number nearest to `num / den`, with the given sign. -/
def ofRatio (negative : Bool) (num den : Nat) : Binary64 :=
  ofMagnitude negative (Format.double.round num den)

/-- The number nearest to a whole number. -/
def ofInt (i : Int) : Binary64 :=
  ofRatio (i < 0) i.natAbs 1

/-- The opposite number. -/
def neg (x : Binary64) : Binary64 :=
  ofMagnitude (!x.negative) x.magnitude

/-- The rounded product of two finite numbers that are not negative. -/
def mul (x y : Binary64) : Binary64 :=
  ofRatio false (x.ratio.1 * y.ratio.1) (x.ratio.2 * y.ratio.2)

/-- The rounded quotient of two finite numbers that are not negative. -/
def div (x y : Binary64) : Binary64 :=
  ofRatio false (x.ratio.1 * y.ratio.2) (x.ratio.2 * y.ratio.1)

/-- Plus zero. -/
def zero : Binary64 := ⟨0⟩

/-- One. -/
def one : Binary64 := ⟨0x3FF0000000000000⟩

/-- The quiet value that is no number. -/
def nan : Binary64 := ⟨0x7FF8000000000000⟩

/-- Plus infinity. -/
def infinity : Binary64 := ⟨0x7FF0000000000000⟩

/-- Equality as numbers: the two zeros are equal, and what is no number differs from everything. -/
def same (x y : Binary64) : Bool :=
  !x.isNaN && !y.isNaN && (x.bits == y.bits || (x.isZero && y.isZero))

/-- The whole part toward zero, held between `lo` and `hi`. What is no number becomes zero. -/
def clamp (lo hi : Int) (x : Binary64) : Int :=
  if x.isNaN then 0
  else if x.isInfinite then (if x.negative then lo else hi)
  else
    let n : Int := (x.ratio.1 / x.ratio.2 : Nat)
    max lo (min hi (if x.negative then -n else n))

/-- The bits of the nearest number of single precision. What is no number keeps its sign and its
high bits and is quiet. -/
def singleBits (x : Binary64) : Nat :=
  let sign := if x.negative then 0x80000000 else 0
  if x.isNaN then sign + (0x7FC00000 ||| (x.magnitude % 0x10000000000000) >>> 29)
  else if x.isInfinite then sign + Format.single.infinity
  else sign + Format.single.round x.ratio.1 x.ratio.2

/-- The word as `0x` and sixteen hexadecimal digits. -/
def hex (x : Binary64) : String :=
  let digits := Nat.toDigits 16 x.bits.toNat
  "0x" ++ String.ofList (List.replicate (16 - digits.length) '0' ++ digits)

end Binary64

example : Binary64.ofRatio false 1 10 = ⟨0x3FB999999999999A⟩ := by decide +kernel
example : Binary64.ofInt (-3) = ⟨0xC008000000000000⟩ := by decide +kernel
example : Binary64.ofRatio false 1 (2 ^ 1074) = ⟨1⟩ := by decide +kernel
example : (Binary64.ofRatio false 1 10).singleBits = 0x3DCCCCCD := by decide +kernel
example : (Binary64.ofRatio true 11 4).clamp (-128) 127 = -2 := by decide +kernel

end TensorGraph
