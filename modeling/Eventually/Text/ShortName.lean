namespace Eventually

namespace Text

-- The characters between which a type expression names types.
def isNameBreak (c : Char) : Bool := "<>, ()[]&".toList.contains c

-- A name is read from its end: what comes before the first double colon met there is kept.
def upToColons : List Char → List Char
  | ':' :: ':' :: _ => []
  | c :: rest => c :: upToColons rest
  | [] => []

-- `before` is the current name, last character first.
def shortenFrom (before : List Char) : List Char → List Char
  | [] => (upToColons before).reverse
  | c :: rest =>
      if isNameBreak c then (upToColons before).reverse ++ c :: shortenFrom [] rest
      else shortenFrom (c :: before) rest

-- A type expression with every name in it freed of its path.
def shortName (full : String) : String := String.ofList (shortenFrom [] full.toList)

end Text

end Eventually
