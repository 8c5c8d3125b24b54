/-!
# Double precision numbers

A number of the IEEE 754 format binary64 as the exact value it stands for. Results of arithmetic
are exact quotients of natural numbers that are rounded once, to the nearest number of the format
and in a tie to the even one.
-/

namespace OriginTags

/-- A double precision number. A finite one is `± significand * 2 ^ exponent`, with a significand
below `2 ^ 53` and an exponent of at least `-1074`, which is the exponent of every significand below
`2 ^ 52`. -/
inductive Binary64
  | nan
  | infinite (negative : Bool)
  | finite (negative : Bool) (significand : Nat) (exponent : Int)
deriving DecidableEq, Repr

namespace Binary64

def zero (negative : Bool) : Binary64 := .finite negative 0 (-1074)

/-- The quotient of two natural numbers, rounded to the nearest one; a tie goes to the even one. -/
def roundDiv (num den : Nat) : Nat :=
  let quotient := num / den
  let twice := 2 * (num % den)
  if den < twice || (twice == den && quotient % 2 == 1) then quotient + 1 else quotient

/-- `num * 2 ^ -shift` over `den`, as a pair of natural numbers. -/
def scaleRatio (num den : Nat) (shift : Int) : Nat × Nat :=
  if 0 ≤ shift then (num, den * Nat.pow 2 shift.toNat) else (num * Nat.pow 2 (-shift).toNat, den)

/-- The exponent of the unit in the last place of a positive quotient. -/
def ulpExponent (num den : Nat) : Int :=
  let magnitude : Int := (num.log2 : Int) - (den.log2 : Int)
  let (n, d) := scaleRatio num den magnitude
  max (-1074) (if d ≤ n then magnitude - 52 else magnitude - 53)

/-- The number nearest to `± num / den`, for a positive `den`. -/
def ofRatio (negative : Bool) (num den : Nat) : Binary64 :=
  if num = 0 then zero negative
  else
    let exponent := ulpExponent num den
    let (n, d) := scaleRatio num den exponent
    let significand := roundDiv n d
    let (significand, exponent) :=
      if significand = Nat.pow 2 53 then (Nat.pow 2 52, exponent + 1) else (significand, exponent)
    if 971 < exponent then .infinite negative else .finite negative significand exponent

/-- The number nearest to a natural number. -/
def ofNat (n : Nat) : Binary64 := ofRatio false n 1

def digitCount (n : Nat) : Nat := (Nat.toDigits 10 n).length

/-- The number nearest to `± digits * 10 ^ exponent`. -/
def ofDecimal (negative : Bool) (digits : Nat) (exponent : Int) : Binary64 :=
  if digits = 0 then zero negative
  else
    let magnitude := (digitCount digits : Int) + exponent
    if 310 < magnitude then .infinite negative
    else if magnitude < -330 then zero negative
    else if 0 ≤ exponent then ofRatio negative (digits * Nat.pow 10 exponent.toNat) 1
    else ofRatio negative digits (Nat.pow 10 (-exponent).toNat)

/-- The absolute value of a finite number as a quotient. -/
def ratio (significand : Nat) (exponent : Int) : Nat × Nat :=
  scaleRatio significand 1 (-exponent)

/-- `x * factor + summand` for natural numbers `factor` and `summand`, rounded once. -/
def scaleAdd (x : Binary64) (factor summand : Nat) : Binary64 :=
  match x with
  | .finite negative significand exponent =>
    let (n, d) := ratio significand exponent
    ofRatio negative (n * factor + summand * d) d
  | other => other

/-- The product of two numbers that are not negative. -/
def mul : Binary64 → Binary64 → Binary64
  | .finite _ s e, .finite _ s' e' =>
    let (n, d) := ratio s e
    let (n', d') := ratio s' e'
    ofRatio false (n * n') (d * d')
  | .nan, _ | _, .nan => .nan
  | _, _ => .infinite false

/-- The quotient of two numbers that are not negative, the second one finite and not zero. -/
def div : Binary64 → Binary64 → Binary64
  | .finite _ s e, .finite _ s' e' =>
    let (n, d) := ratio s e
    let (n', d') := ratio s' e'
    if n' = 0 then .nan else ofRatio false (n * d') (d * n')
  | x, _ => x

def withSign (negative : Bool) : Binary64 → Binary64
  | .nan => .nan
  | .infinite _ => .infinite negative
  | .finite _ s e => .finite negative s e

def isZero : Binary64 → Bool
  | .finite _ s _ => s == 0
  | _ => false

def isInfinite : Binary64 → Bool
  | .infinite _ => true
  | _ => false

end Binary64

end OriginTags
