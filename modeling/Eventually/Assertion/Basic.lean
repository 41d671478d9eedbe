import Eventually.Assertion.Sink

namespace Eventually

-- A part of a whole as it was reached, and the whole with another part in its place.
structure Focus (α β : Type) where
  part : β
  put : β → α

-- What comes of reaching for a part to replace it. The reaching alone may already have changed the
-- whole, whether or not there is a part in the end.
inductive Access (α β : Type) where
  | missed (left : α)
  | found (focus : Focus α β)

namespace Access

def focus? : Access α β → Option (Focus α β)
  | missed _ => none
  | found x => some x

-- The whole with the part changed, if there is one.
def change (f : β → β) : Access α β → α
  | missed left => left
  | found x => x.put (f x.part)

-- The whole as it is left when nothing is done to the part.
def whole (access : Access α β) : α := access.change fun part => part

end Access

-- Ways from a whole to a part of it, for reading and for replacing. Either may fail, and a lens
-- that only reads has no `access?`.
structure Lens (α β : Type) where
  whole : String
  part : String
  get? : α → Option β
  access? : Option (α → Access α β)

-- One requirement on an object. Testing only reports. It may pin down the name or the namespace
-- of the object, and may know how to change an object so that the requirement holds.
structure Leaf (α : Type) where
  description : String
  check : α → List Report
  name : Option String := none
  scope : Option String := none
  fixer : Option (α → α) := none

mutual

-- A requirement, a checklist taken as one requirement, one more handle on an assertion that others
-- may hold, too, or a requirement on a part.
inductive Assertion : Type → Type 1 where
  | leaf (leaf : Leaf α) : Assertion α
  | all (members : Checklist α) : Assertion α
  | shared (inner : Assertion α) : Assertion α
  | lift (lens : Lens α β) (inner : Assertion β) : Assertion α

-- Assertions in the order of their declaration.
inductive Checklist : Type → Type 1 where
  | nil : Checklist α
  | cons (head : Assertion α) (rest : Checklist α) : Checklist α

end

namespace Checklist

def toList : Checklist α → List (Assertion α)
  | nil => []
  | cons head rest => head :: rest.toList

def ofList : List (Assertion α) → Checklist α
  | [] => nil
  | head :: rest => cons head (ofList rest)

def length (list : Checklist α) : Nat := list.toList.length

def isEmpty (list : Checklist α) : Bool := list.toList.isEmpty

def append : Checklist α → Checklist α → Checklist α
  | nil, other => other
  | cons head rest, other => cons head (rest.append other)

def push (list : Checklist α) (a : Assertion α) : Checklist α := list.append (cons a nil)

theorem ofList_toList : ∀ list : Checklist α, ofList list.toList = list
  | nil => rfl
  | cons head rest => congrArg (cons head) rest.ofList_toList

theorem toList_ofList : ∀ members : List (Assertion α), (ofList members).toList = members
  | [] => rfl
  | head :: rest => congrArg (head :: ·) (toList_ofList rest)

theorem ofList_append (first second : List (Assertion α)) :
    ofList (first ++ second) = (ofList first).append (ofList second) := by
  induction first with
  | nil => rfl
  | cons head rest ih => rw [List.cons_append, ofList, ih, ofList, append]

end Checklist

namespace Assertion

-- The members of a checklist, also behind handles. No other assertion has any.
def members? : Assertion α → Option (Checklist α)
  | leaf _ => none
  | all members => some members
  | shared inner => inner.members?
  | lift _ _ => none

end Assertion

mutual

-- A lifted assertion is described as what it lifts.
def Assertion.describe : Assertion α → String
  | .leaf l => l.description
  | .all members => "all of [" ++ ", ".intercalate members.descriptions ++ "]"
  | .shared inner => inner.describe
  | .lift _ inner => inner.describe

def Checklist.descriptions : Checklist α → List String
  | .nil => []
  | .cons head rest => head.describe :: rest.descriptions

end

mutual

-- The leaves below an assertion, through checklists and lifts, by their descriptions.
def Assertion.leafDescriptions : Assertion α → List String
  | .leaf l => [l.description]
  | .all members => members.leafDescriptions
  | .shared inner => inner.leafDescriptions
  | .lift _ inner => inner.leafDescriptions

def Checklist.leafDescriptions : Checklist α → List String
  | .nil => []
  | .cons head rest => head.leafDescriptions ++ rest.leafDescriptions

end

mutual

-- An assertion with nested checklists resolved, also those behind handles. A lift stands for
-- itself, whatever is below it, and so does a handle on something that is no checklist.
def Assertion.flatten : Assertion α → List (Assertion α)
  | .leaf l => [.leaf l]
  | .all members => members.flatten
  | .shared inner =>
      match inner.members? with
      | some _ => inner.flatten
      | none => [.shared inner]
  | .lift lens inner => [.lift lens inner]

def Checklist.flatten : Checklist α → List (Assertion α)
  | .nil => []
  | .cons head rest => head.flatten ++ rest.flatten

end

namespace Checklist

def describe (list : Checklist α) : String := (Assertion.all list).describe

end Checklist

end Eventually
