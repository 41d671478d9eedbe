import Eventually.Resource.Space
import Eventually.Resource.Standard
import Eventually.Resource.UserSignup

namespace Eventually

variable [Stamps]

-- Metadata as a store gives them back for an object it has just taken in.
def Metadata.stored (uid : Stamps.Uid) (created : Stamps.Instant) (scope name : String) :
    Metadata :=
  { name, scope := some scope, uid := some uid, generation := 1, created := some created }

def Space.created (uid : Stamps.Uid) (created : Stamps.Instant) (scope name tier : String) :
    Space :=
  { metadata := .stored uid created scope name, tier }

def UserSignup.pending (uid : Stamps.Uid) (created : Stamps.Instant)
    (scope name username : String) : UserSignup :=
  { metadata := .stored uid created scope name, username }

def Condition.ready (reason : String) : Condition :=
  { type := "Ready", status := .true, reason := some reason }

def Condition.notReady (reason : String) : Condition :=
  { type := "Ready", status := .false, reason := some reason }

end Eventually
