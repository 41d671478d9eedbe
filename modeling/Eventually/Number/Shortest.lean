import Eventually.Number.Binary64

namespace Eventually

-- digits * 10 ^ exponent
structure Decimal where
  digits : Nat
  exponent : Int
deriving DecidableEq

namespace Decimal

-- Compares digits * 10 ^ exponent with m * 2 ^ q, exactly.
def compareBinary (d : Decimal) (m : Nat) (q : Int) : Ordering :=
  compare (d.digits * powUp 10 d.exponent * powDown 2 q) (m * powUp 2 q * powDown 10 d.exponent)

-- The decimals that round to x lie between the midpoints to its two neighbours. The midpoints
-- themselves round to x exactly when its mantissa is even.
def readsAs (d : Decimal) (x : Binary64) : Bool :=
  let even := x.mantissa % 2 == 0
  let low := if x.narrowBelow then 4 * x.mantissa - 1 else 4 * x.mantissa - 2
  let below := d.compareBinary low (x.place - 2)
  let above := d.compareBinary (4 * x.mantissa + 2) (x.place - 2)
  (below == .gt || even && below == .eq) && (above == .lt || even && above == .eq)

-- Writes the value with no trailing zero in its digits. A value has fewer digits than fuel.
def strip : Nat → Decimal → Decimal
  | 0, d => d
  | fuel + 1, d =>
      if d.digits != 0 && d.digits % 10 == 0 then strip fuel ⟨d.digits / 10, d.exponent + 1⟩ else d

-- The least k with x < 10 ^ k, sought upwards from a guess that is not above it.
def scaleFrom (x : Binary64) : Nat → Int → Int
  | 0, k => k
  | fuel + 1, k =>
      if (Decimal.mk 1 k).compareBinary x.mantissa x.place == .gt then k
      else scaleFrom x fuel (k + 1)

-- 30103 / 100000 is just above the decimal logarithm of two.
def scale (x : Binary64) : Int :=
  let bits := Int.ofNat x.mantissa.log2 + x.place
  scaleFrom x 8 (Int.fdiv (bits * 30103) 100000 - 2)

-- The points of the grid 10 ^ step next to x: the last one not above it, and the one after.
def floorOn (x : Binary64) (step : Int) : Nat :=
  x.mantissa * powUp 2 x.place * powDown 10 step / (powUp 10 step * powDown 2 x.place)

-- Of two decimals that read as x the nearer one, and at equal distance the one with an even digit.
def nearer (x : Binary64) (lower upper : Decimal) : Decimal :=
  match (Decimal.mk (lower.digits + upper.digits) lower.exponent).compareBinary
      (2 * x.mantissa) x.place with
  | .lt => upper
  | .gt => lower
  | .eq => if lower.digits % 2 == 0 then lower else upper

-- The best decimal for x on one grid, if the grid has one that reads as x.
def onGrid? (x : Binary64) (step : Int) : Option Decimal :=
  let lower := Decimal.mk (floorOn x step) step
  let upper := Decimal.mk (floorOn x step + 1) step
  match lower.readsAs x, upper.readsAs x with
  | true, true => some (nearer x lower upper)
  | true, false => some lower
  | false, true => some upper
  | false, false => none

-- The value of x in full, which is what remains when no short grid has a point for it.
def exact (x : Binary64) : Decimal :=
  ⟨x.mantissa * powUp 2 x.place * powDown 5 x.place, if x.place < 0 then x.place else 0⟩

-- The decimal with the fewest digits that reads as x, the nearest of those. The coarsest grid with
-- a point for x has it, and seventeen digits identify every double.
def shortest (x : Binary64) : Decimal :=
  let top := scale x
  let found := (List.range 17).findSome? fun n => onGrid? x (top - Int.ofNat (n + 1))
  strip 800 (found.getD (exact x))

end Decimal

end Eventually
