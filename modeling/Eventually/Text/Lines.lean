namespace Eventually

namespace Text

-- A line that was ended, its characters last first. A carriage return belongs to the line end.
def endedLine : List Char → String
  | '\r' :: before => String.ofList before.reverse
  | before => String.ofList before.reverse

def linesFrom (before : List Char) : List Char → List String
  | [] => if before.isEmpty then [] else [String.ofList before.reverse]
  | c :: rest =>
      if c = '\n' then endedLine before :: linesFrom [] rest else linesFrom (c :: before) rest

-- The lines of a text. A line end at the very end starts no further line.
def lines (s : String) : List String := linesFrom [] s.toList

end Text

end Eventually
