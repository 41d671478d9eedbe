import Eventually.Assertion.Repair
import Eventually.Diff.Path
import Eventually.Resource.Basic

namespace Eventually

-- Why an object fails a checklist: what would have to change, and what no change is known for.
structure Explanation where
  changes : List FieldChange
  unexplained : List String

namespace Explanation

def isEmpty (e : Explanation) : Bool := e.changes.isEmpty && e.unexplained.isEmpty

def paths (e : Explanation) : List String := e.changes.map Change.place

def diffText (e : Explanation) : String := "\n".intercalate (e.changes.map FieldChange.text)

def text (e : Explanation) : String :=
  if e.isEmpty then "no differences"
  else
    "\n".intercalate
      (e.changes.map FieldChange.text ++ e.unexplained.map ("unexplained: " ++ ·))

end Explanation

-- The object or its repaired copy cannot be written.
structure WriteError where
  reason : String
deriving DecidableEq

namespace WriteError

def message (e : WriteError) : String := "Serialization error: " ++ e.reason

end WriteError

namespace Checklist

-- The difference between an object and its repaired copy, both as documents.
def explain [Writable α] (list : Checklist α) (obj : α) : Except WriteError Explanation :=
  let repaired := list.repair obj
  match Writable.write obj, Writable.write repaired.object with
  | .error reason, _ => .error ⟨reason⟩
  | .ok _, .error reason => .error ⟨reason⟩
  | .ok actual, .ok expected => .ok ⟨Diff.report actual expected, repaired.unexplained⟩

end Checklist

end Eventually
