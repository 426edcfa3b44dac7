/-!
# Binary floating-point numbers

Non-negative numbers with 53 significant binary digits, computed exactly: a quotient is rounded to the
nearest such number, and of two equally near ones to the even one. Numbers have no digit below
`2 ^ -1074` and stay below `2 ^ 1024`.
-/

namespace Utterance

/-- A quotient rounded to the nearest integer, a half to the even one. -/
def roundDiv (num den : Nat) : Nat :=
  let q := num / den
  let twice := 2 * (num % den)
  if den < twice || twice = den && q % 2 = 1 then q + 1 else q

/-- The number `mantissa * 2 ^ exponent`. -/
structure Binary64 where
  mantissa : Nat
  exponent : Int
  deriving DecidableEq, Repr

namespace Binary64

/-- Number of significant digits. -/
def precision : Nat := 53

/-- The place of the last digit of the least number. -/
def leastExponent : Int := -1074

/-- All numbers are below two to this power. -/
def limit : Nat := 1024

/-- The quotient `num / den` as a quotient of integers in units of `2 ^ e`. -/
def inUnits (num den : Nat) (e : Int) : Nat × Nat :=
  if 0 ≤ e then (num, den <<< e.toNat) else (num <<< (-e).toNat, den)

/-- The place of the last digit that a positive quotient is rounded to. -/
def lastPlace (num den : Nat) : Int :=
  let guess : Int := num.log2 - den.log2 - (precision - 1 : Nat)
  let (n, d) := inUnits num den guess
  -- the quotient may have one binary digit less than its parts suggest
  max leastExponent (if n / d < 1 <<< (precision - 1) then guess - 1 else guess)

/-- Whether a number is below the limit. -/
def isFinite (x : Binary64) : Bool :=
  let (n, d) := inUnits (1 <<< limit) 1 x.exponent
  x.mantissa * d < n

/-- The number nearest to a quotient; none if that is too large. -/
def ofRatio? (num den : Nat) : Option Binary64 :=
  if num = 0 then some ⟨0, 0⟩
  else
    let e := lastPlace num den
    let (n, d) := inUnits num den e
    let x : Binary64 := ⟨roundDiv n d, e⟩
    if x.isFinite then some x else none

/-- The number nearest to an integer; none if that is too large. -/
def ofNat? (n : Nat) : Option Binary64 := ofRatio? n 1

/-- A number as a quotient of integers. -/
def ratio (x : Binary64) : Nat × Nat :=
  if 0 ≤ x.exponent then (x.mantissa <<< x.exponent.toNat, 1)
  else (x.mantissa, 1 <<< (-x.exponent).toNat)

/-- A product; none if it is too large. -/
def mul? (x y : Binary64) : Option Binary64 :=
  ofRatio? (x.ratio.1 * y.ratio.1) (x.ratio.2 * y.ratio.2)

/-- A quotient of positive numbers; none if it is too large. -/
def div? (x y : Binary64) : Option Binary64 :=
  ofRatio? (x.ratio.1 * y.ratio.2) (x.ratio.2 * y.ratio.1)

/-- The integer part of a number. -/
def truncate (x : Binary64) : Nat := x.ratio.1 / x.ratio.2

/-- Whether a number is zero. -/
def isZero (x : Binary64) : Bool := x.mantissa = 0

end Binary64

end Utterance
