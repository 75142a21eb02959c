/-!
# Binary floating point numbers of 64 bits, exactly

A `Binary64` is a sign, a natural significand and a power of two; the finite numbers of the IEEE
format are those with a significand below `2^53` and an exponent between `-1074` and `971`.  All
operations are exact integer arithmetic followed by one rounding, so nothing here depends on the
machine.

* `Binary64.ofRatio?` rounds a quotient of naturals to the nearest number, a tie to the even
  significand; `none` stands for a magnitude beyond the greatest finite number.
* `Binary64.ofDecimal?` reads a decimal significand and exponent the way readers do that keep the
  significand in 64 bits: the significand is rounded, and then scaled by a rounded power of ten.
* `Binary64.shortest` gives the fewest decimal digits that read back as the same number, and of
  those the ones nearest to it.
-/

namespace Interdoc

/-- A finite binary floating point number: `± significand · 2 ^ exponent`. -/
structure Binary64 where
  negative : Bool
  significand : Nat
  exponent : Int
  deriving DecidableEq, Repr

namespace Binary64

/-- Zero. -/
def zero : Binary64 := ⟨false, 0, 0⟩

/-- The least exponent of the format. -/
def minExponent : Int := -1074

/-- The greatest exponent of the format. -/
def maxExponent : Int := 971

/-- The quotient rounded to the nearest natural, a tie to the even one. -/
def roundDiv (n d : Nat) : Nat :=
  let q := n / d
  let r := n % d
  if 2 * r < d then q
  else if 2 * r = d then (if q % 2 = 0 then q else q + 1)
  else q + 1

/-- The number of binary digits. -/
def bitLength (n : Nat) : Nat :=
  if n = 0 then 0 else n.log2 + 1

/-- The quotient `n / d` scaled by `2 ^ (-e)` and rounded. -/
def scaled (n d : Nat) (e : Int) : Nat :=
  if e < 0 then roundDiv (n * Nat.pow 2 e.natAbs) d else roundDiv n (d * Nat.pow 2 e.natAbs)

/-- The number nearest to `n / d` for a positive `d`, or `none` beyond the greatest one. -/
def ofRatio? (negative : Bool) (n d : Nat) : Option Binary64 :=
  if n = 0 then some ⟨negative, 0, 0⟩
  else
    -- The exponent for which the quotient has 53 binary digits, or one more.
    let guess : Int := (bitLength n : Int) - (bitLength d : Int) - 53
    let e := max guess minExponent
    let m := scaled n d e
    let (m, e) := if m ≥ Nat.pow 2 53 then (scaled n d (e + 1), e + 1) else (m, e)
    -- Rounding up may have reached the next power of two.
    let (m, e) := if m ≥ Nat.pow 2 53 then (m / 2, e + 1) else (m, e)
    if e > maxExponent then none
    else if m = 0 then some ⟨negative, 0, 0⟩
    else some ⟨negative, m, e⟩

/-- The magnitude as a quotient of naturals. -/
def toRatio (x : Binary64) : Nat × Nat :=
  if x.exponent < 0 then (x.significand, Nat.pow 2 x.exponent.natAbs)
  else (x.significand * Nat.pow 2 x.exponent.natAbs, 1)

/-- The number nearest to a natural. -/
def ofNat? (n : Nat) : Option Binary64 :=
  ofRatio? false n 1

/-- The product, rounded. -/
def mul? (x y : Binary64) : Option Binary64 :=
  let (a, b) := x.toRatio
  let (c, d) := y.toRatio
  ofRatio? (x.negative != y.negative) (a * c) (b * d)

/-- The quotient by a number other than zero, rounded. -/
def div? (x y : Binary64) : Option Binary64 :=
  let (a, b) := x.toRatio
  let (c, d) := y.toRatio
  ofRatio? (x.negative != y.negative) (a * d) (b * c)

/-- The number with the opposite sign. -/
def neg (x : Binary64) : Binary64 :=
  { x with negative := !x.negative }

/-! ### Reading decimals -/

/-- A number scaled by a power of ten: the powers up to `10 ^ 308` are numbers themselves; a
smaller scale is applied in steps of `10 ^ 308` until nothing is left.  The steps are bounded, since
three of them take every number to zero. -/
def scaleTen? (x : Binary64) (e : Int) : (steps : Nat) → Option Binary64
  | 0 => some { x with significand := 0, exponent := 0 }
  | steps + 1 =>
    if e.natAbs ≤ 308 then do
      let power ← ofNat? (Nat.pow 10 e.natAbs)
      if e ≥ 0 then mul? x power else div? x power
    else if x.significand = 0 then some x
    else if e ≥ 0 then none
    else do
      let power ← ofNat? (Nat.pow 10 308)
      let y ← div? x power
      scaleTen? y (e + 308) steps

/-- The number that stands for `significand · 10 ^ e`. -/
def ofDecimal? (negative : Bool) (significand : Nat) (e : Int) : Option Binary64 := do
  let x ← ofNat? significand
  let y ← scaleTen? x e 4
  return { y with negative := negative }

/-! ### Writing decimals -/

/-- Whether `n / d` lies in the interval of reals that round to `x`: half a step on either side, the
ends included if the significand is even.  The step below a power of two is half as long. -/
def roundsTo (x : Binary64) (n d : Nat) : Bool :=
  -- Everything is scaled by four, so that a quarter of a step is one unit.
  let m := 4 * x.significand
  let below := if x.significand = Nat.pow 2 52 && x.exponent > minExponent then m - 1 else m - 2
  let above := m + 2
  let q := x.exponent - 2
  let (lo, hi, v) :=
    if q < 0 then (below * d, above * d, n * Nat.pow 2 q.natAbs)
    else (below * d * Nat.pow 2 q.natAbs, above * d * Nat.pow 2 q.natAbs, n)
  if x.significand % 2 = 0 then lo ≤ v && v ≤ hi else lo < v && v < hi

/-- The decimal `k · 10 ^ e` as a quotient. -/
def decimalRatio (k : Nat) (e : Int) : Nat × Nat :=
  if e < 0 then (k, Nat.pow 10 e.natAbs) else (k * Nat.pow 10 e.natAbs, 1)

/-- Of the two neighbours of `x` on the grid of multiples of `10 ^ e`, the one that rounds to `x`;
if both do, the nearer, and of two equally near the even one. -/
def neighbour? (x : Binary64) (e : Int) : Option Nat :=
  let (a, b) := x.toRatio
  let (num, den) := if e < 0 then (a * Nat.pow 10 e.natAbs, b) else (a, b * Nat.pow 10 e.natAbs)
  let low := num / den
  let hit (k : Nat) : Bool := k ≠ 0 && (let (n, d) := decimalRatio k e; x.roundsTo n d)
  let nearest := roundDiv num den
  let other := if nearest = low then low + 1 else low
  if hit nearest then some nearest else if hit other then some other else none

/-- The first grid, from coarse to fine, on which a neighbour of `x` rounds to `x`. -/
def shortestFrom (x : Binary64) (e : Int) : (steps : Nat) → Nat × Int
  | 0 => (x.significand, x.exponent)
  | steps + 1 =>
    match x.neighbour? e with
    | some k => (k, e)
    | none => shortestFrom x (e - 1) steps

/-- The fewest decimal digits that read back as the positive number `x`, as a natural without
trailing zeros and the power of ten of its last digit. -/
def shortest (x : Binary64) : Nat × Int :=
  let (a, b) := x.toRatio
  -- The number of digits before the point is at most this.
  let top : Int := if a ≥ b then ((toString (a / b)).length : Int)
    else 1 - ((toString (b / a)).length : Int)
  shortestFrom x (top + 1) 25

end Binary64

end Interdoc
