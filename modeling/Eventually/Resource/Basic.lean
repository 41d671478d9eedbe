import Eventually.Resource.Item
import Eventually.Resource.Space
import Eventually.Resource.UserSignup

namespace Eventually

variable [Stamps]

-- An object of either kind, seen through what the kinds have in common.
inductive Resource where
  | space (space : Space)
  | userSignup (signup : UserSignup)
deriving DecidableEq

namespace Resource

def metadata : Resource → Metadata
  | space s => s.metadata
  | userSignup s => s.metadata

def setMetadata (resource : Resource) (metadata : Metadata) : Resource :=
  match resource with
  | space s => space { s with metadata }
  | userSignup s => userSignup { s with metadata }

instance : Keyed Resource := ⟨fun resource => resource.metadata.key⟩

instance : WithMetadata Resource where
  metadata := metadata
  setMetadata := setMetadata
  set_get resource := by cases resource <;> rfl

-- A resource is written with its kind, and its object below that.
def toJson : Resource → Json
  | space s => .ofFields [("kind", .string "Space"), ("object", s.toJson)]
  | userSignup s => .ofFields [("kind", .string "UserSignup"), ("object", s.toJson)]

def ofJson? (document : Json) : Option Resource := do
  let fields ← document.record? ["kind", "object"]
  let kind ← Json.required fields "kind" Json.string?
  if kind = "Space" then (Json.required fields "object" Space.ofJson?).map space
  else if kind = "UserSignup" then
    (Json.required fields "object" UserSignup.ofJson?).map userSignup
  else none

end Resource

-- Types of objects under the name that messages give them.
class KindName (α : Type) where
  kindName : String

instance : KindName Space := ⟨"Space"⟩

instance : KindName UserSignup := ⟨"UserSignup"⟩

instance : KindName Metadata := ⟨"ObjectMeta"⟩

instance : KindName Conditions := ⟨"Vec<Condition>"⟩

instance : KindName Resource := ⟨"dyn Resource"⟩

instance : KindName Item := ⟨"Item"⟩

-- Objects that can be written as a document, where writing may fail with a reason.
class Writable (α : Type) where
  write : α → Except String Json

instance : Writable Metadata := ⟨fun metadata => .ok metadata.toJson⟩

instance : Writable Conditions := ⟨fun conditions => .ok (Condition.listToJson conditions)⟩

instance : Writable Space := ⟨fun space => .ok space.toJson⟩

instance : Writable UserSignup := ⟨fun signup => .ok signup.toJson⟩

-- An item with a negative number cannot be written.
instance : Writable Item where
  write item :=
    if item.value < 0 then .error ("negative value " ++ toString item.value) else .ok item.toJson

end Eventually
