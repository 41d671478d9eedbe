import Eventually.Text.Digits

namespace Eventually

-- A unique identifier of 128 bits, as hexadecimal digits.
structure Identifier where
  digits : List (Fin 16)
  size : digits.length = 32
deriving DecidableEq

namespace Identifier

def hexDigit? (c : Char) : Option (Fin 16) :=
  (Text.hexValue? c).bind fun value => if h : value < 16 then some ⟨value, h⟩ else none

def ofDigits? (cs : List Char) : Option Identifier :=
  (cs.mapM hexDigit?).bind fun digits => if h : digits.length = 32 then some ⟨digits, h⟩ else none

-- Groups of the given lengths with a hyphen between them, joined without the hyphens.
def joinGroups? : List Nat → List Char → Option (List Char)
  | [], [] => some []
  | [], _ => none
  | [last], cs => if cs.length = last then some cs else none
  | count :: rest, cs =>
      match cs.drop count with
      | '-' :: after => (joinGroups? rest after).map (cs.take count ++ ·)
      | _ => none

def groups : List Nat := [8, 4, 4, 4, 12]

def ofHyphenated? (cs : List Char) : Option Identifier := (joinGroups? groups cs).bind ofDigits?

-- Digits alone, or in hyphenated groups, which may stand in braces or behind a name space. Letters
-- may have either case everywhere.
def ofText? (s : String) : Option Identifier :=
  let cs := s.toList
  match cs.length with
  | 32 => ofDigits? cs
  | 36 => ofHyphenated? cs
  | 38 =>
      if cs.head? = some '\x7b' ∧ cs.getLast? = some '\x7d' then ofHyphenated? (cs.drop 1).dropLast
      else none
  | 45 =>
      if (cs.take 9).map Char.toLower = "urn:uuid:".toList then ofHyphenated? (cs.drop 9) else none
  | _ => none

def splitGroups : List Nat → List Char → List Char
  | [], _ => []
  | [_], cs => cs
  | count :: rest, cs => cs.take count ++ '-' :: splitGroups rest (cs.drop count)

-- Lower-case digits in hyphenated groups.
def text (id : Identifier) : String :=
  String.ofList (splitGroups groups (id.digits.map fun digit => Nat.digitChar digit.val))

end Identifier

end Eventually
