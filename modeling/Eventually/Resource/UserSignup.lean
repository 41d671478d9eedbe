import Eventually.Resource.Condition
import Eventually.Resource.Metadata

namespace Eventually

variable [Stamps]

-- A request to sign up: the name asked for, the approval, and the name given.
structure UserSignup where
  metadata : Metadata
  username : String
  approved : Bool := false
  compliantUsername : Option String := none
  conditions : Conditions := []
deriving DecidableEq

namespace UserSignup

def specToJson (signup : UserSignup) : Json :=
  .ofFields [("username", .string signup.username), ("approved", .bool signup.approved)]

def statusToJson (signup : UserSignup) : Json :=
  .ofFields <|
    Json.present "compliantUsername" .string signup.compliantUsername ++
    [("conditions", Condition.listToJson signup.conditions)]

def toJson (signup : UserSignup) : Json :=
  .ofFields
    [("metadata", signup.metadata.toJson), ("spec", signup.specToJson),
      ("status", signup.statusToJson)]

def specOfJson? (document : Json) : Option (String × Bool) := do
  let fields ← document.record? ["username", "approved"]
  let username ← Json.required fields "username" Json.string?
  let approved ← Json.defaulted fields "approved" false Json.bool?
  some (username, approved)

def statusOfJson? (document : Json) : Option (Option String × Conditions) := do
  let fields ← document.record? ["compliantUsername", "conditions"]
  let compliantUsername ← Json.optional fields "compliantUsername" Json.string?
  let conditions ← Json.defaulted fields "conditions" [] Condition.listOfJson?
  some (compliantUsername, conditions)

def ofJson? (document : Json) : Option UserSignup := do
  let fields ← document.record? ["metadata", "spec", "status"]
  let metadata ← Json.required fields "metadata" Metadata.ofJson?
  let (username, approved) ← Json.required fields "spec" specOfJson?
  let (compliantUsername, conditions) ←
    Json.defaulted fields "status" (none, []) statusOfJson?
  some { metadata, username, approved, compliantUsername, conditions }

instance : Keyed UserSignup := ⟨fun signup => signup.metadata.key⟩

instance : WithMetadata UserSignup where
  metadata signup := signup.metadata
  setMetadata signup metadata := { signup with metadata }
  set_get _ := rfl

instance : WithConditions UserSignup where
  conditions signup := signup.conditions
  setConditions signup conditions := { signup with conditions }
  set_get _ := rfl

end UserSignup

end Eventually
