/-!
# The shortest decimal that reads back

A binary floating-point number stands for all the reals that lie nearer to it than to its
neighbours. Among the decimals in that interval `shortest` picks one with the fewest digits, and of
those the one nearest to the number itself; of two equally near ones it takes the upper.

The search walks decimal grids from coarse to fine. On the grid of multiples of `10 ^ k` only the
two points around the number matter: if any point of the grid lies in the interval, so does one of
these two. All arithmetic is exact, on natural numbers over a common denominator.

In the runtime: the digits with which a `Value.Number` is described.
-/

namespace Dispatch.Decimal

/-- The positive number `significand · 2 ^ exponent`. Its upper neighbour is one unit of the
significand away; so is the lower one, or half a unit if `narrowBelow` says so. -/
structure Binary where
  significand : Nat
  exponent : Int
  narrowBelow : Bool
deriving DecidableEq, Repr

/-- The number `digits · 10 ^ exponent`. -/
structure Numeral where
  digits : Nat
  exponent : Int
deriving DecidableEq, Repr

/-- How many decimal digits a natural number has; zero has none. -/
def digitCount (n : Nat) : Nat :=
  if h : n = 0 then 0 else digitCount (n / 10) + 1
termination_by n
decreasing_by omega

/-- A decimal without zeros at the end of its digits. -/
def Numeral.dropZeros (d : Numeral) : Numeral :=
  if h : d.digits ≠ 0 ∧ d.digits % 10 = 0 then dropZeros ⟨d.digits / 10, d.exponent + 1⟩ else d
termination_by d.digits
decreasing_by omega

namespace Binary

/-- The exact decimal value: a power of two below one is a power of five over a power of ten. -/
def exact (b : Binary) : Numeral :=
  ⟨b.significand * Nat.pow 2 b.exponent.toNat * Nat.pow 5 (-b.exponent).toNat, min b.exponent 0⟩

/-- `a` quarter units, counted in steps of `10 ^ k`, as a numerator over `denominator`. -/
def numerator (b : Binary) (k : Int) (a : Nat) : Nat :=
  a * Nat.pow 2 (b.exponent - 2).toNat * Nat.pow 10 (-k).toNat

/-- The common denominator of all counts of quarter units on the grid of `10 ^ k`. -/
def denominator (b : Binary) (k : Int) : Nat :=
  Nat.pow 10 k.toNat * Nat.pow 2 (2 - b.exponent).toNat

/-- Whether `c · 10 ^ k` reads back as `b`: it lies between the midpoints to the neighbours, or on
a midpoint if the significand is even. -/
def fits (b : Binary) (k : Int) (c : Nat) : Bool :=
  let point := c * b.denominator k
  let low := b.numerator k (4 * b.significand - if b.narrowBelow then 1 else 2)
  let high := b.numerator k (4 * b.significand + 2)
  if b.significand % 2 = 0 then low ≤ point && point ≤ high else low < point && point < high

/-- The point of the grid of `10 ^ k` that reads back as `b` and is nearest to it, if any does. -/
def nearestOn (b : Binary) (k : Int) : Option Nat :=
  let value := b.numerator k (4 * b.significand)
  let below := value / b.denominator k
  let above := below + 1
  match b.fits k below, b.fits k above with
  | true, true => if 2 * value < (below + above) * b.denominator k then below else above
  | true, false => below
  | false, true => above
  | false, false => none

/-- The exponent `e` for which the number lies between `10 ^ e`, included, and `10 ^ (e + 1)`. -/
def magnitude (b : Binary) : Int :=
  let value := b.numerator 0 (4 * b.significand)
  let one := b.denominator 0
  if one ≤ value then digitCount (value / one) - 1 else -digitCount ((one - 1) / value)

/-- The shortest decimal that reads back, nearest to the number among those. Seventeen digits are
enough for a significand of fifty-three bits; a wider one is written exactly. -/
def shortest (b : Binary) : Numeral :=
  let found := (List.range 17).findSome? fun (n : Nat) =>
    let k := b.magnitude - n
    (b.nearestOn k).map fun c => (⟨c, k⟩ : Numeral)
  (found.getD b.exact).dropZeros

end Binary

end Dispatch.Decimal
