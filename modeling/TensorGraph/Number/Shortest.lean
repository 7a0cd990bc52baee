import TensorGraph.Number.Binary64

/-!
# Shortest decimals

`shortest` finds the fewest decimal digits that read back as a given finite number. For each count
of digits the two neighbours of the number on that decimal grid are tested against the interval of
reals that round to the number; the first grid with a hit decides, and of two hits the nearer one is
taken, a tie going to the even digit.
-/

namespace TensorGraph.Shortest

/-- The reals that round to a magnitude, as quotients over one denominator: the ends of the
interval, the number itself, and whether the ends belong to it. -/
structure Interval where
  low : Nat
  value : Nat
  high : Nat
  den : Nat
  closed : Bool

/-- The interval of a finite number that is not zero. -/
def interval (x : Binary64) : Interval :=
  let (m, e) := x.parts
  -- Below a power of two the numbers are twice as dense.
  let below := if m = 0x10000000000000 ∧ -1074 < e then 1 else 2
  let up := Nat.pow 2 e.toNat
  { low := (4 * m - below) * up, value := 4 * m * up, high := (4 * m + 2) * up
    den := 4 * Nat.pow 2 (-e).toNat, closed := m % 2 == 0 }

/-- Does `n / d` round to the number? -/
def Interval.contains (i : Interval) (n d : Nat) : Bool :=
  let p := n * i.den
  let low := i.low * d
  let high := i.high * d
  if i.closed then low ≤ p && p ≤ high else low < p && p < high

/-- The number of decimal places before the first digit that is not zero, for a quotient below
one. -/
def leadingZeros : Nat → Nat → Nat → Nat
  | 0, _, _ => 0
  | fuel + 1, n, d => if d ≤ 10 * n then 0 else leadingZeros fuel (10 * n) d + 1

/-- The exponent of ten of the first digit of `n / d`. Finite numbers have fewer than 400 leading
zeros. -/
def leadingExponent (n d : Nat) : Int :=
  if d ≤ n then ((Nat.toDigits 10 (n / d)).length : Int) - 1
  else -(leadingZeros 400 n d : Int) - 1

/-- The neighbours of `value` among the multiples of `10 ^ e`: the first that the interval holds,
the nearer of two. -/
def Interval.onGrid? (i : Interval) (e : Int) : Option Nat :=
  let up := Nat.pow 10 e.toNat
  let down := Nat.pow 10 (-e).toNat
  -- `value / den` in units of `10 ^ e` is `n / d`.
  let n := i.value * down
  let d := i.den * up
  let q := n / d
  let r := n % d
  let low := i.contains (q * up) down
  let high := i.contains ((q + 1) * up) down
  if low && high then
    some (if 2 * r < d then q else if d < 2 * r then q + 1 else if q % 2 == 0 then q else q + 1)
  else if low then some q
  else if high then some (q + 1)
  else none

/-- Try the grids of `count`, `count + 1`, … digits. -/
def search (i : Interval) (lead : Int) : Nat → Nat → Nat × Int
  | 0, count => (i.value / i.den, lead - count)
  | fuel + 1, count =>
    let e := lead + 1 - count
    match i.onGrid? e with
    | some q => (q, e)
    | none => search i lead fuel (count + 1)

/-- Digits without zeros at the end, and the exponent of the last of them. -/
def strip : Nat → Nat × Int → Nat × Int
  | 0, p => p
  | fuel + 1, (q, e) => if q ≠ 0 ∧ q % 10 = 0 then strip fuel (q / 10, e + 1) else (q, e)

end TensorGraph.Shortest

namespace TensorGraph

/-- The fewest digits that read back as a finite number that is not zero: `(q, e)` stands for `q *
10 ^ e`. Seventeen digits always suffice. -/
def Binary64.shortest (x : Binary64) : Nat × Int :=
  let i := Shortest.interval x
  Shortest.strip 20 (Shortest.search i (Shortest.leadingExponent i.value i.den) 17 1)

end TensorGraph
