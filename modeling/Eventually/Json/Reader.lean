import Eventually.Json.Basic
import Eventually.Text.Digits

namespace Eventually

namespace Json

namespace Reader

-- Each reader takes the characters that are left and gives back those it did not use. Fuel bounds
-- the number of nested or successive elements; the length of the text is always enough.

def skipBlanks (cs : List Char) : List Char :=
  cs.dropWhile fun c => c = ' ' || c = '\n' || c = '\r' || c = '\t'

def hex4? : List Char → Option (Nat × List Char)
  | a :: b :: c :: d :: rest => do
      let a ← Text.hexValue? a
      let b ← Text.hexValue? b
      let c ← Text.hexValue? c
      let d ← Text.hexValue? d
      some (((a * 16 + b) * 16 + c) * 16 + d, rest)
  | _ => none

-- A unit outside the surrogates is a character, a high surrogate needs a low one behind it.
def unicodeEscape? (cs : List Char) : Option (Char × List Char) := do
  let (unit, rest) ← hex4? cs
  if unit < 0xD800 || 0xDFFF < unit then some (Char.ofNat unit, rest)
  else if 0xDBFF < unit then none
  else match rest with
    | '\\' :: 'u' :: rest =>
        let (low, rest) ← hex4? rest
        if low < 0xDC00 || 0xDFFF < low then none
        else some (Char.ofNat (0x10000 + (unit - 0xD800) * 0x400 + (low - 0xDC00)), rest)
    | _ => none

def escape? : List Char → Option (Char × List Char)
  | '"' :: rest => some ('"', rest)
  | '\\' :: rest => some ('\\', rest)
  | '/' :: rest => some ('/', rest)
  | 'b' :: rest => some (Char.ofNat 8, rest)
  | 'f' :: rest => some (Char.ofNat 12, rest)
  | 'n' :: rest => some ('\n', rest)
  | 'r' :: rest => some ('\r', rest)
  | 't' :: rest => some ('\t', rest)
  | 'u' :: rest => unicodeEscape? rest
  | _ => none

-- The rest of a string whose first quote has been read.
def string? : Nat → List Char → List Char → Option (String × List Char)
  | 0, _, _ => none
  | fuel + 1, before, cs =>
      match cs with
      | [] => none
      | '"' :: rest => some (String.ofList before.reverse, rest)
      | '\\' :: rest => do
          let (c, rest) ← escape? rest
          string? fuel (c :: before) rest
      | c :: rest => if c.toNat < 32 then none else string? fuel (c :: before) rest

-- A whole number without sign, and without a superfluous zero in front.
def whole? (cs : List Char) : Option (List Char × List Char) :=
  match cs.span Char.isDigit with
  | ([], _) => none
  | ('0' :: _ :: _, _) => none
  | (digits, rest) => some (digits, rest)

def fraction? : List Char → Option (List Char × List Char)
  | '.' :: rest =>
      match rest.span Char.isDigit with
      | ([], _) => none
      | (digits, rest) => some (digits, rest)
  | rest => some ([], rest)

def exponent? (cs : List Char) : Option (Option Int × List Char) :=
  let signed (negative : Bool) (cs : List Char) : Option (Option Int × List Char) :=
    match cs.span Char.isDigit with
    | ([], _) => none
    | (digits, rest) =>
        let value := Int.ofNat (Text.decimalValue digits)
        some (some (if negative then -value else value), rest)
  let marked : List Char → Option (Option Int × List Char)
    | '+' :: rest => signed false rest
    | '-' :: rest => signed true rest
    | rest => signed false rest
  match cs with
  | 'e' :: rest => marked rest
  | 'E' :: rest => marked rest
  | rest => some (none, rest)

-- Integers of 64 bits, signed or not, stay integers. A minus sign before zero makes the double
-- zero, since no integer has that sign.
def wholeNumber? (negative : Bool) (value : Nat) : Option Number :=
  if negative then
    if value != 0 && 2 * value ≤ UInt64.size then some (.int (-Int.ofNat value))
    else (Binary64.ofDecimal? true value 0).map .double
  else if value < UInt64.size then some (.int (Int.ofNat value))
  else (Binary64.ofDecimal? false value 0).map .double

def number? (cs : List Char) : Option (Json × List Char) := do
  let (negative, cs) := match cs with
    | '-' :: rest => (true, rest)
    | _ => (false, cs)
  let (digits, rest) ← whole? cs
  let (places, rest) ← fraction? rest
  let (shift, rest) ← exponent? rest
  let value ←
    if places.isEmpty && shift.isNone then wholeNumber? negative (Text.decimalValue digits)
    else
      let exponent := shift.getD 0 - Int.ofNat places.length
      (Binary64.ofDecimal? negative (Text.decimalValue (digits ++ places)) exponent).map .double
  some (number value, rest)

mutual

def value? : Nat → List Char → Option (Json × List Char)
  | 0, _ => none
  | fuel + 1, cs =>
      match skipBlanks cs with
      | 'n' :: 'u' :: 'l' :: 'l' :: rest => some (null, rest)
      | 't' :: 'r' :: 'u' :: 'e' :: rest => some (bool true, rest)
      | 'f' :: 'a' :: 'l' :: 's' :: 'e' :: rest => some (bool false, rest)
      | '"' :: rest => do
          let (s, rest) ← string? (fuel + 1) [] rest
          some (string s, rest)
      | '[' :: rest =>
          match skipBlanks rest with
          | ']' :: rest => some (array [], rest)
          | rest => items? fuel [] rest
      | '\x7b' :: rest =>
          match skipBlanks rest with
          | '\x7d' :: rest => some (object [], rest)
          | rest => fields? fuel [] rest
      | rest => number? rest

-- At least one item, each but the last followed by a comma.
def items? : Nat → List Json → List Char → Option (Json × List Char)
  | 0, _, _ => none
  | fuel + 1, before, cs => do
      let (item, rest) ← value? fuel cs
      match skipBlanks rest with
      | ',' :: rest => items? fuel (item :: before) rest
      | ']' :: rest => some (array (item :: before).reverse, rest)
      | _ => none

def fields? : Nat → List (String × Json) → List Char → Option (Json × List Char)
  | 0, _, _ => none
  | fuel + 1, before, cs =>
      match skipBlanks cs with
      | '"' :: rest => do
          let (key, rest) ← string? (fuel + 1) [] rest
          match skipBlanks rest with
          | ':' :: rest =>
              let (value, rest) ← value? fuel rest
              match skipBlanks rest with
              | ',' :: rest => fields? fuel ((key, value) :: before) rest
              | '\x7d' :: rest => some (ofFields ((key, value) :: before).reverse, rest)
              | _ => none
          | _ => none
      | _ => none

end

end Reader

-- The document that makes up the whole text.
def ofText? (s : String) : Option Json := do
  let cs := s.toList
  let (value, rest) ← Reader.value? (cs.length + 1) cs
  if (Reader.skipBlanks rest).isEmpty then some value else none

end Json

end Eventually
