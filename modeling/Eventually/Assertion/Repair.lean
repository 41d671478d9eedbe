import Eventually.Assertion.Basic

namespace Eventually

-- The fixers in their order on one copy, those that are missing passed over.
def applyFixers (fixers : List (Option (α → α))) (obj : α) : α :=
  fixers.foldl (fun copy fixer => fixer.elim copy fun fix => fix copy) obj

namespace Lens

-- Reaching for the part to replace it, which a lens that only reads does not even try.
def access (lens : Lens α β) (obj : α) : Access α β :=
  match lens.access? with
  | some reach => reach obj
  | none => .missed obj

-- Reaching for the part is no more than that: the whole is left as it was.
def Projects (lens : Lens α β) : Prop := ∀ obj, (lens.access obj).whole = obj

-- A fixer of the part as a fixer of the whole, if the part can be replaced at all. To a whole on
-- which the part is not reached it does nothing of its own.
def fixer? (lens : Lens α β) (inner : Option (β → β)) : Option (α → α) :=
  match lens.access?, inner with
  | some reach, some fix => some fun obj => (reach obj).change fix
  | _, _ => none

end Lens

-- All fixers as one, if none is missing.
def joinFixers (fixers : List (Option (α → α))) : Option (α → α) :=
  if fixers.all Option.isSome then some (applyFixers fixers) else none

mutual

-- A checklist offers a fixer when all of its flattened members do.
def Assertion.fixer? : Assertion α → Option (α → α)
  | .leaf l => l.fixer
  | .all members => joinFixers members.fixers
  | .shared inner => inner.fixer?
  | .lift lens inner => lens.fixer? inner.fixer?

-- What the flattened members of an assertion offer.
def Assertion.fixers : Assertion α → List (Option (α → α))
  | .leaf l => [l.fixer]
  | .all members => members.fixers
  | .shared inner => inner.fixers
  | .lift lens inner => [lens.fixer? inner.fixer?]

def Checklist.fixers : Checklist α → List (Option (α → α))
  | .nil => []
  | .cons head rest => head.fixers ++ rest.fixers

end

-- A copy that fixers have worked on, and the leaves that none of them could fix.
structure Repaired (α : Type) where
  object : α
  unexplained : List String
deriving DecidableEq

namespace Repaired

def map (f : α → β) (repaired : Repaired α) : Repaired β :=
  ⟨f repaired.object, repaired.unexplained⟩

-- Goes on with the copy.
def andThen (repaired : Repaired α) (next : α → Repaired β) : Repaired β :=
  let after := next repaired.object
  ⟨after.object, repaired.unexplained ++ after.unexplained⟩

end Repaired

mutual

-- Applies every fixer that can be reached, in order, to one copy. Below a lift the fixable leaves
-- contribute even when others there cannot be fixed.
def Assertion.repair : Assertion α → α → Repaired α
  | .leaf l, obj =>
      match l.fixer with
      | some fix => ⟨fix obj, []⟩
      | none => ⟨obj, [l.description]⟩
  | .all members, obj => members.repair obj
  | .shared inner, obj => inner.repair obj
  | .lift lens inner, obj =>
      match lens.access obj with
      | .found x => (inner.repair x.part).map x.put
      | .missed left => ⟨left, inner.leafDescriptions⟩

def Checklist.repair : Checklist α → α → Repaired α
  | .nil, obj => ⟨obj, []⟩
  | .cons head rest, obj => (head.repair obj).andThen fun copy => rest.repair copy

end

namespace Checklist

-- The fixers of the flattened members, whether or not the checklist offers one itself.
def fix (list : Checklist α) (obj : α) : α := applyFixers list.fixers obj

def offersFixer (list : Checklist α) : Bool := (Assertion.all list).fixer?.isSome

end Checklist

end Eventually
