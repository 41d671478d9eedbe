import Eventually.Assertion.Test

namespace Eventually

-- What a list of candidates holds: one that passes, or the one with the fewest failures, with
-- these failures. Of equals the earlier one counts.
inductive Scan (α : Type) where
  | matched (obj : α)
  | unmatched (closest : Option (α × List String))

namespace Scan

def closer (best : Option (α × List String)) (obj : α) (failures : List String) :
    Option (α × List String) :=
  match best with
  | none => some (obj, failures)
  | some (other, fewest) =>
      if failures.length < fewest.length then some (obj, failures) else some (other, fewest)

end Scan

namespace Checklist

-- Candidates are looked at in their order, up to the first that passes or cannot be viewed.
def scanFrom (list : Checklist α) (best : Option (α × List String)) :
    List α → Except ViewError (Scan α)
  | [] => .ok (.unmatched best)
  | obj :: rest =>
      match list.evaluate obj with
      | .error e => .error e
      | .ok failures =>
          if failures.isEmpty then .ok (.matched obj)
          else scanFrom list (Scan.closer best obj failures) rest

def scan (list : Checklist α) (candidates : List α) : Except ViewError (Scan α) :=
  list.scanFrom none candidates

end Checklist

end Eventually
