import Eventually.Number.Shortest

namespace Eventually

namespace Decimal

def zeros (count : Nat) : String := String.ofList (List.replicate count '0')

-- The digits with a point after the first `whole` of them, zeros supplied on either side.
def positional (digits : String) (whole : Int) : String :=
  if whole ≤ 0 then "0." ++ zeros (-whole).toNat ++ digits
  else
    let count := whole.toNat
    if digits.length ≤ count then digits ++ zeros (count - digits.length) ++ ".0"
    else String.ofList (digits.toList.take count) ++ "." ++ String.ofList (digits.toList.drop count)

-- One digit before the point, the others behind it, and the sign of the exponent always written.
def scientific (digits : String) (exponent : Int) : String :=
  let mantissa :=
    match digits.toList with
    | first :: next :: rest => String.ofList (first :: '.' :: next :: rest)
    | _ => digits
  let sign := if exponent < 0 then "-" else "+"
  mantissa ++ "e" ++ sign ++ toString exponent.natAbs

-- Values from 0.00001 up to sixteen digits before the point are written positionally.
def text (d : Decimal) : String :=
  let digits := toString d.digits
  let exponent := d.exponent + Int.ofNat digits.length - 1
  if -5 ≤ exponent ∧ exponent ≤ 15 then positional digits (exponent + 1)
  else scientific digits exponent

end Decimal

namespace Binary64

def text (x : Binary64) : String :=
  let magnitude := if x.rank == 0 then "0.0" else (Decimal.shortest x).text
  if x.negative then "-" ++ magnitude else magnitude

end Binary64

end Eventually
