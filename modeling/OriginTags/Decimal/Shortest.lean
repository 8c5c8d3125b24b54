import OriginTags.Decimal.Binary64
/-!
# Shortest decimals

The decimal with the fewest digits that reads back as a given number and, among those, the nearest
one. Every finite number is the midpoint of an interval of reals that round to it; a decimal reads
back if it lies in that interval.
-/

namespace OriginTags

/-- The positive decimal `digits * 10 ^ exponent`. -/
structure Decimal where
  digits : Nat
  exponent : Int
deriving DecidableEq, Repr

namespace Decimal

/-- `num * 10 ^ -shift` over `den`, as a pair of natural numbers. -/
def scaleRatio (num den : Nat) (shift : Int) : Nat × Nat :=
  if 0 ≤ shift then (num, den * Nat.pow 10 shift.toNat) else (num * Nat.pow 10 (-shift).toNat, den)

/-- Whether `10 ^ power` is at most `num / den`. -/
def powerAtMost (power : Int) (num den : Nat) : Bool :=
  let (n, d) := scaleRatio num den power
  decide (d ≤ n)

/-- The exponent of the leading digit of a positive quotient. -/
def leadExponent (num den : Nat) : Int :=
  let magnitude : Int := (num.log2 : Int) - (den.log2 : Int)
  -- The decimal logarithm of two, near enough to be off by one at most.
  let guess := (magnitude * 30103).fdiv 100000
  if powerAtMost (guess + 1) num den then guess + 1
  else if powerAtMost guess num den then guess
  else guess - 1

/-- The reals that round to a number, with the number itself, in quarters of its last place. -/
structure Interval where
  low : Nat
  value : Nat
  high : Nat
  inclusive : Bool
  exponent : Int
deriving Repr

/-- The interval of the number `significand * 2 ^ exponent`. Below a power of two the next number
is only half as far away. -/
def Interval.of (significand : Nat) (exponent : Int) : Interval where
  low := if significand = Nat.pow 2 52 ∧ -1074 < exponent then 4 * significand - 1
    else 4 * significand - 2
  value := 4 * significand
  high := 4 * significand + 2
  inclusive := significand % 2 == 0
  exponent := exponent - 2

/-- Whether `candidate * 10 ^ power` lies in an interval. -/
def Interval.contains (i : Interval) (candidate : Nat) (power : Int) : Bool :=
  let (n, d) := scaleRatio candidate 1 (-power)
  let (n, d) := Binary64.scaleRatio n d i.exponent
  if i.inclusive then i.low * d ≤ n && n ≤ i.high * d else i.low * d < n && n < i.high * d

/-- The decimal with `count` digits, or one more, that lies in an interval and is nearest to its
value; in a tie the one with an even last digit. -/
def Interval.decimal? (i : Interval) (lead : Int) (count : Nat) : Option Decimal :=
  let power := lead - (count : Int) + 1
  let (n, d) := scaleRatio i.value 1 power
  let (n, d) := Binary64.scaleRatio n d (-i.exponent)
  let below := n / d
  let twice := 2 * (n % d)
  let belowNearer := twice < d || (twice == d && below % 2 == 0)
  -- Only the two nearest candidates can be the nearest one in the interval.
  match i.contains below power, i.contains (below + 1) power with
  | true, true => some ⟨if belowNearer then below else below + 1, power⟩
  | true, false => some ⟨below, power⟩
  | false, true => some ⟨below + 1, power⟩
  | false, false => none

/-- The decimal of an interval on the first of some grids, ever finer, that has one. -/
def Interval.search (i : Interval) (lead : Int) : Nat → Nat → Decimal
  | 0, _ => ⟨i.value, 0⟩
  | left + 1, count =>
    match i.decimal? lead count with
    | some d => d
    | none => i.search lead left (count + 1)

/-- A decimal without trailing zeros; `fuel` bounds their number. -/
def dropZeros : Nat → Decimal → Decimal
  | 0, d => d
  | fuel + 1, d =>
    if d.digits ≠ 0 ∧ d.digits % 10 = 0 then dropZeros fuel ⟨d.digits / 10, d.exponent + 1⟩ else d

/-- The shortest decimal of the number `significand * 2 ^ exponent`, which is not zero. Seventeen
digits always suffice. -/
def shortest (significand : Nat) (exponent : Int) : Decimal :=
  let i := Interval.of significand exponent
  let (n, d) := Binary64.ratio significand exponent
  dropZeros 20 (i.search (leadExponent n d) 17 1)

end Decimal

end OriginTags
