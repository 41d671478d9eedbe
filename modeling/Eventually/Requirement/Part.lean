import Eventually.Assertion.Test
import Eventually.Resource.Basic

namespace Eventually

variable [Stamps]

namespace Lens

-- The metadata of any object that has them can always be read and replaced.
def metadata (α : Type) [WithMetadata α] [KindName α] : Lens α Metadata where
  whole := KindName.kindName α
  part := KindName.kindName Metadata
  get? a := some (WithMetadata.metadata a)
  access? := some fun a => .found ⟨WithMetadata.metadata a, WithMetadata.setMetadata a⟩

def conditions (α : Type) [WithConditions α] [KindName α] : Lens α Conditions where
  whole := KindName.kindName α
  part := KindName.kindName Conditions
  get? a := some (WithConditions.conditions a)
  access? := some fun a => .found ⟨WithConditions.conditions a, WithConditions.setConditions a⟩

def accessSpace : Resource → Access Resource Space
  | .space s => .found ⟨s, .space⟩
  | .userSignup s => .missed (.userSignup s)

def accessUserSignup : Resource → Access Resource UserSignup
  | .space s => .missed (.space s)
  | .userSignup s => .found ⟨s, .userSignup⟩

-- A resource as a space, which it may not be.
def asSpace : Lens Resource Space where
  whole := KindName.kindName Resource
  part := KindName.kindName Space
  get? resource := (accessSpace resource).focus?.map Focus.part
  access? := some accessSpace

def asUserSignup : Lens Resource UserSignup where
  whole := KindName.kindName Resource
  part := KindName.kindName UserSignup
  get? resource := (accessUserSignup resource).focus?.map Focus.part
  access? := some accessUserSignup

end Lens

namespace Assertion

def onMetadata [WithMetadata α] [KindName α] (inner : Assertion Metadata) : Assertion α :=
  lift (Lens.metadata α) inner

def onConditions [WithConditions α] [KindName α] (inner : Assertion Conditions) : Assertion α :=
  lift (Lens.conditions α) inner

def onSpace (inner : Assertion Space) : Assertion Resource := lift Lens.asSpace inner

def onUserSignup (inner : Assertion UserSignup) : Assertion Resource := lift Lens.asUserSignup inner

end Assertion

end Eventually
