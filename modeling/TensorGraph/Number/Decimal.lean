import TensorGraph.Number.Binary64
import TensorGraph.Text.Numeral

/-!
# Reading decimals

The digits of a decimal are gathered into a 64-bit significand. A whole digit that no longer fits,
and every whole digit after it, only raises the exponent; a fraction digit that no longer fits, and
every one after it, is dropped. The significand is then scaled by one power of ten, itself rounded,
and by divisions by `10 ^ 308` while the exponent is below the table of powers. A decimal too large
for a finite number has no value.
-/

namespace TensorGraph.Decimal

/-- The digits of a decimal, before its value is known. -/
structure Digits where
  negative : Bool
  whole : List Char
  fraction : List Char
  exponent : Int

/-- Is there room for one more digit in a 64-bit significand? -/
def fits (significand : Nat) (digit : Char) : Bool :=
  10 * significand + Text.digitValue digit ≤ Text.wordMax

/-- The longest start of `cs` whose digits fit behind `significand`, and the digits left over. -/
def gather : Nat → List Char → Nat × List Char
  | significand, [] => (significand, [])
  | significand, c :: cs =>
    if fits significand c then gather (10 * significand + Text.digitValue c) cs
    else (significand, c :: cs)

/-- The nearest number to `10 ^ n`. -/
def power (n : Nat) : Binary64 :=
  Binary64.ofRatio false (Nat.pow 10 n) 1

/-- Divide by `10 ^ n`, in steps of `10 ^ 308` while the power is out of range. -/
def shrink (x : Binary64) (n : Nat) : Binary64 :=
  if n ≤ 308 then x.div (power n)
  else if x.isZero then x
  else shrink (x.div (power 308)) (n - 308)
termination_by n

/-- The significand scaled by a power of ten, if it is finite. -/
def scale? (significand : Nat) (exponent : Int) : Option Binary64 :=
  let x := Binary64.ofInt significand
  if exponent < 0 then some (shrink x exponent.natAbs)
  else if exponent ≤ 308 then
    let y := x.mul (power exponent.toNat)
    if y.isInfinite then none else some y
  else if x.isZero then some x
  else none

/-- The value of a decimal. -/
def Digits.value? (d : Digits) : Option Binary64 :=
  let (significand, extra) := gather 0 d.whole
  let (significand, dropped) := gather significand d.fraction
  let taken := d.fraction.length - dropped.length
  (scale? significand (extra.length - taken + d.exponent)).map fun x =>
    if d.negative then x.neg else x

end TensorGraph.Decimal
