/-!
# Unsigned decimal numerals

A numeral is a nonempty run of ASCII digits, after at most one plus sign. Leading zeros are allowed;
a value above the bound is no numeral.
-/

namespace TensorGraph.Text

/-- The value of a digit. -/
def digitValue (c : Char) : Nat :=
  c.toNat - '0'.toNat

/-- The value of a run of digits, the most significant first. -/
def digitsValue (cs : List Char) : Nat :=
  cs.foldl (fun n c => 10 * n + digitValue c) 0

/-- The largest value of a 64-bit word. -/
def wordMax : Nat := 0xFFFFFFFFFFFFFFFF

/-- The value of a run of digits that is not empty and at most `bound`. -/
def readDigits? (bound : Nat) (cs : List Char) : Option Nat :=
  if cs.isEmpty || !cs.all Char.isDigit then none
  else
    let n := digitsValue cs
    if n ≤ bound then some n else none

/-- The value of a numeral that is at most `bound`. -/
def readNumeral? (bound : Nat) : List Char → Option Nat
  | '+' :: cs => readDigits? bound cs
  | cs => readDigits? bound cs

example : readNumeral? wordMax "+007".toList = some 7 := by decide
example : readNumeral? wordMax "18446744073709551616".toList = none := by decide
example : readNumeral? wordMax "++1".toList = none := by decide
example : readNumeral? wordMax [] = none := by decide

end TensorGraph.Text
