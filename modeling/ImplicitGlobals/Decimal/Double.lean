/-!
# Binary floating point

The magnitudes of 64-bit binary floating point, with exact arithmetic behind
them: a quotient of natural numbers is rounded to the nearest magnitude, an exact
half to the even one.
-/

namespace ImplicitGlobals.Decimal

/-- The value `mantissa · 2 ^ exponent`, with a mantissa below `2 ^ 53` and an exponent
of at least `-1074`. -/
structure Double where
  mantissa : Nat
  exponent : Int
deriving DecidableEq, Repr, Inhabited

namespace Double

def minExponent : Int := -1074

def mantissaBits : Nat := 53

def zero : Double := ⟨0, minExponent⟩

/-- `2 ^ e` as a numerator and a denominator. -/
def powerOfTwo (e : Int) : Nat × Nat :=
  if e < 0 then (1, Nat.pow 2 e.natAbs) else (Nat.pow 2 e.natAbs, 1)

/-- The value as a numerator and a denominator. -/
def ratio (x : Double) : Nat × Nat :=
  let (a, b) := powerOfTwo x.exponent
  (x.mantissa * a, b)

/-- The natural number nearest to `num / den`; an exact half goes to the even one. -/
def divNearest (num den : Nat) : Nat :=
  let q := num / den
  let twice := 2 * (num % den)
  if twice < den ∨ (twice = den ∧ q % 2 = 0) then q else q + 1

/-- `num / den` in units of `2 ^ e`, rounded to a whole number of them. -/
def mantissaAt (num den : Nat) (e : Int) : Nat :=
  let (a, b) := powerOfTwo e
  divNearest (num * b) (den * a)

/-- The exponent at which `num / den` has a mantissa of full length, or the least one. -/
def exponentFor (num den : Nat) : Int :=
  let guess : Int := (Nat.log2 num : Int) - (Nat.log2 den : Int) - (mantissaBits - 1 : Nat)
  let (a, b) := powerOfTwo guess
  let e := if num * b < den * a * Nat.pow 2 (mantissaBits - 1) then guess - 1 else guess
  max e minExponent

/-- The magnitude nearest to `num / den`. -/
def ofRatio (num den : Nat) : Double :=
  if num = 0 then zero
  else
    let e := exponentFor num den
    let m := mantissaAt num den e
    if m = Nat.pow 2 mantissaBits then ⟨Nat.pow 2 (mantissaBits - 1), e + 1⟩ else ⟨m, e⟩

def ofNat (n : Nat) : Double := ofRatio n 1

/-- Whether the value is too large to be finite. -/
def overflows (x : Double) : Bool := x.mantissa != 0 && x.exponent > 971

def mul (x y : Double) : Double :=
  ofRatio (x.ratio.1 * y.ratio.1) (x.ratio.2 * y.ratio.2)

def div (x y : Double) : Double :=
  ofRatio (x.ratio.1 * y.ratio.2) (x.ratio.2 * y.ratio.1)

/-- The greatest power of ten that is finite. -/
def maxPower : Nat := 308

def powerOfTen (n : Nat) : Double := ofNat (Nat.pow 10 n)

/-- `x` shifted by decimal places, with one rounding for each step of at most
`maxPower` places; there is none if it is too large. -/
def shift? (x : Double) (places : Int) : Option Double :=
  if places < -(maxPower : Int) then
    if x.mantissa = 0 then some x else shift? (x.div (powerOfTen maxPower)) (places + maxPower)
  else if places < 0 then some (x.div (powerOfTen places.natAbs))
  else if (maxPower : Int) < places then if x.mantissa = 0 then some x else none
  else
    let y := x.mul (powerOfTen places.natAbs)
    if y.overflows then none else some y
termination_by places.natAbs
decreasing_by simp [maxPower] at *; omega

end Double

end ImplicitGlobals.Decimal
