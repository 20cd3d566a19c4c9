import ImplicitGlobals.Decimal.Double

/-!
# Shortest decimals

A magnitude is written with the fewest digits that read back as the same
magnitude; of several such decimals the nearest is taken, and of two equally near
the even one.
-/

namespace ImplicitGlobals.Decimal

/-- `digits · 10 ^ exponent`. -/
structure Digits where
  digits : Nat
  exponent : Int
deriving DecidableEq, Repr, Inhabited

namespace Double

/-- The decimals that round to a magnitude lie between two bounds, here in units of a
quarter of its last place; the bounds belong to an even mantissa. -/
def quarterBounds (x : Double) : Nat × Nat :=
  let low :=
    if x.mantissa = Nat.pow 2 (mantissaBits - 1) ∧ minExponent < x.exponent then 4 * x.mantissa - 1
    else 4 * x.mantissa - 2
  (low, 4 * x.mantissa + 2)

/-- `10 ^ k` as a numerator and a denominator. -/
def decimalUnit (k : Int) : Nat × Nat :=
  if k < 0 then (1, Nat.pow 10 k.natAbs) else (Nat.pow 10 k.natAbs, 1)

/-- Whether `n · 10 ^ k` reads back as `x`. -/
def readsBack (x : Double) (n : Nat) (k : Int) : Bool :=
  let (low, high) := x.quarterBounds
  let (a, b) := powerOfTwo (x.exponent - 2)
  let (c, d) := decimalUnit k
  let value := n * c * b
  let lower := low * a * d
  let upper := high * a * d
  if x.mantissa % 2 = 0 then lower ≤ value && value ≤ upper
  else lower < value && value < upper

/-- The neighbour of `x` on the grid of `10 ^ k` that reads back, the nearer one first. -/
def onGrid? (x : Double) (k : Int) : Option Digits :=
  let (c, d) := decimalUnit k
  let num := x.ratio.1 * d
  let den := x.ratio.2 * c
  let near := divNearest num den
  let far := if near * den ≤ num then near + 1 else near - 1
  if x.readsBack near k then some ⟨near, k⟩
  else if x.readsBack far k then some ⟨far, k⟩
  else none

/-- The place of the first digit of a positive magnitude: the greatest `k` with
`10 ^ k ≤ x`, searched downwards from `k`. -/
def leadingPlace (x : Double) : Nat → Int → Int
  | 0, k => k
  | fuel + 1, k =>
    let (c, d) := decimalUnit k
    if c * x.ratio.2 ≤ x.ratio.1 * d then k else leadingPlace x fuel (k - 1)

/-- The first grid with a hit, from `fuel` digits fewer than enough on. -/
def search (x : Double) : Nat → Int → Digits
  | 0, _ => ⟨0, 0⟩
  | fuel + 1, k => (x.onGrid? k).getD (search x fuel (k - 1))

/-- `n` without its trailing zeros, and how many they were; at most `fuel`. -/
def stripZeros : Nat → Nat → Nat × Nat
  | 0, n => (n, 0)
  | fuel + 1, n =>
    if n ≠ 0 ∧ n % 10 = 0 then
      let (m, z) := stripZeros fuel (n / 10)
      (m, z + 1)
    else (n, 0)

/-- The shortest decimal of a positive magnitude. -/
def shortest (x : Double) : Digits :=
  let found := x.search 18 (x.leadingPlace 640 309)
  let (n, zeros) := stripZeros 20 found.digits
  ⟨n, found.exponent + zeros⟩

/-- Zeros, then digits, then zeros, with a point where the exponent puts it; from
`10 ^ 16` on and below `10 ^ -5` with a signed exponent. -/
def text (x : Double) : String :=
  if x.mantissa = 0 then "0.0"
  else
    let s := x.shortest
    let ds := Nat.toDigits 10 s.digits
    let point : Int := ds.length + s.exponent
    let zeros (n : Nat) := List.replicate n '0'
    let chars :=
      if 0 ≤ s.exponent ∧ point ≤ 16 then ds ++ zeros s.exponent.natAbs ++ ['.', '0']
      else if 0 < point ∧ point ≤ 16 then ds.take point.natAbs ++ ['.'] ++ ds.drop point.natAbs
      else if -5 < point ∧ point ≤ 0 then ['0', '.'] ++ zeros point.natAbs ++ ds
      else
        let sign := if 1 ≤ point then ['+'] else []
        let mark := ['e'] ++ sign ++ (toString (point - 1)).toList
        match ds with
        | [d] => d :: mark
        | d :: more => d :: '.' :: more ++ mark
        | [] => mark
    String.ofList chars

end Double

end ImplicitGlobals.Decimal
