import Eventually.Number.Power

namespace Eventually

-- How many doubles of one sign have the same exponent: two to the power 52.
def binade : Nat := 4503599627370496

-- How many finite doubles of one sign there are.
def rankCount : Nat := 2047 * binade

-- Finite doubles. The rank counts the non-negative ones upwards from zero, so that ranks compare
-- as the values do and each value but zero has one sign and one rank.
structure Binary64 where
  negative : Bool
  rank : Nat
  finite : rank < rankCount
deriving DecidableEq

namespace Binary64

def zero : Binary64 := ⟨false, 0, by decide⟩

-- The two zeros are one value.
def same (x y : Binary64) : Bool :=
  x.rank == y.rank && (x.negative == y.negative || x.rank == 0)

-- The magnitude is mantissa * 2 ^ place.
def mantissa (x : Binary64) : Nat :=
  if x.rank < binade then x.rank else binade + x.rank % binade

def place (x : Binary64) : Int :=
  if x.rank < binade then -1074 else Int.ofNat (x.rank / binade) - 1075

-- At a power of two the gap below is half the gap above, except at the least exponent.
def narrowBelow (x : Binary64) : Bool :=
  x.rank % binade == 0 && 2 * binade ≤ x.rank

-- The quotient rounded to the nearest whole number, a half to the even neighbour.
def roundHalfEven (num den : Nat) : Nat :=
  let quotient := num / den
  let twice := 2 * (num % den)
  if den < twice || (twice == den && quotient % 2 == 1) then quotient + 1 else quotient

-- The largest power of two that is not above num / den, both positive.
def floorLog2 (num den : Nat) : Int :=
  let guess := Int.ofNat num.log2 - Int.ofNat den.log2
  if den * powUp 2 guess ≤ num * powDown 2 guess then guess else guess - 1

-- The rank nearest to num / den. Doubles of one binade are equally spaced, and a mantissa that
-- rounds up to 2 * binade is the first one of the next binade, so one sum covers all cases.
def nearestRank (num den : Nat) : Nat :=
  if num == 0 then 0
  else
    let place := max (floorLog2 num den - 52) (-1074)
    let mantissa := roundHalfEven (num * powDown 2 place) (den * powUp 2 place)
    (place + 1074).toNat * binade + mantissa

-- The double nearest to digits * 10 ^ exponent, none when it lies beyond the largest one.
-- Far outside the range of doubles the exact quotient is not needed, and not computed.
def ofDecimal? (negative : Bool) (digits : Nat) (exponent : Int) : Option Binary64 :=
  let magnitude := exponent + Int.ofNat (Nat.toDigits 10 digits).length
  let rank :=
    if digits == 0 || magnitude < -400 then 0
    else if 400 < magnitude then rankCount
    else nearestRank (digits * powUp 10 exponent) (powDown 10 exponent)
  if h : rank < rankCount then some ⟨negative, rank, h⟩ else none

end Binary64

end Eventually
