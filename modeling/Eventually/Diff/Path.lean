import Eventually.Diff.Basic
import Eventually.Json.Printer

namespace Eventually

namespace Diff

-- A key follows a point unless nothing has been written yet, an index stands in brackets. Neither
-- is escaped, so a key that holds a point or a bracket can make two positions read alike.
def Step.extend (path : String) : Step → String
  | .key name => if path.isEmpty then name else path ++ "." ++ name
  | .index count => path ++ "[" ++ toString count ++ "]"

def Position.path (position : Position) : String := position.foldl Step.extend ""

end Diff

-- A difference as it is reported, with the dotted path of its place.
abbrev FieldChange := Change String

namespace FieldChange

def shownPath (path : String) : String := if path.isEmpty then "(root)" else path

def text : FieldChange → String
  | .added path value => "+ " ++ shownPath path ++ ": " ++ value.text
  | .removed path value => "- " ++ shownPath path ++ ": " ++ value.text
  | .changed path actual expected =>
      "~ " ++ shownPath path ++ ": " ++ actual.text ++ " -> " ++ expected.text

end FieldChange

namespace Diff

-- What turns the actual document into the expected one, with paths.
def report (actual expected : Json) : List FieldChange :=
  (changes actual expected).map (Change.map Position.path)

end Diff

end Eventually
