import Eventually.Json.Basic

namespace Eventually

namespace Diff

-- One step down into a document, and a place in it as the steps from the root.
inductive Step where
  | key (key : String)
  | index (index : Nat)
deriving DecidableEq

abbrev Position := List Step

end Diff

-- One difference between an actual and an expected document. What says where it lies is a
-- parameter: a position in the document, or the text of one.
inductive Change (ι : Type) where
  | added (place : ι) (value : Json)
  | removed (place : ι) (value : Json)
  | changed (place : ι) (actual expected : Json)

namespace Change

def place : Change ι → ι
  | added place _ => place
  | removed place _ => place
  | changed place _ _ => place

def map (f : ι → κ) : Change ι → Change κ
  | added place value => added (f place) value
  | removed place value => removed (f place) value
  | changed place actual expected => changed (f place) actual expected

end Change

namespace Diff

-- The changes of a part, seen from the document that holds it.
def under (step : Step) (changes : List (Change Position)) : List (Change Position) :=
  changes.map (Change.map (step :: ·))

-- The keys that only the expected object has.
def addedFields (actual expected : List (String × Json)) : List (Change Position) :=
  (expected.filter fun field => (Entries.find? field.1 actual).isNone).map
    fun field => .added [.key field.1] field.2

def addedItems (index : Nat) : List Json → List (Change Position)
  | [] => []
  | item :: rest => .added [.index index] item :: addedItems (index + 1) rest

-- Objects are compared key by key, first the keys of the actual one in their order and then those
-- only the expected one has, arrays index by index, and all else by value.
mutual

def changes : Json → Json → List (Change Position)
  | .object actual, .object expected =>
      fieldChanges actual expected ++ addedFields actual expected
  | .array actual, .array expected => itemChanges 0 actual expected
  | actual, expected => if actual == expected then [] else [.changed [] actual expected]

def fieldChanges : List (String × Json) → List (String × Json) → List (Change Position)
  | [], _ => []
  | (key, value) :: rest, expected =>
      (match Entries.find? key expected with
        | some other => under (.key key) (changes value other)
        | none => [.removed [.key key] value]) ++ fieldChanges rest expected

def itemChanges (index : Nat) : List Json → List Json → List (Change Position)
  | [], expected => addedItems index expected
  | item :: rest, [] => .removed [.index index] item :: itemChanges (index + 1) rest []
  | item :: rest, other :: expected =>
      under (.index index) (changes item other) ++ itemChanges (index + 1) rest expected

end

end Diff

end Eventually
