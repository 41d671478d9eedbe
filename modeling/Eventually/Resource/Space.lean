import Eventually.Resource.Condition
import Eventually.Resource.Metadata

namespace Eventually

variable [Stamps]

-- A tenant space: the tier and cluster asked for, and what has been provisioned.
structure Space where
  metadata : Metadata
  tier : String
  targetCluster : Option String := none
  landedCluster : Option String := none
  provisioned : List String := []
  conditions : Conditions := []
deriving DecidableEq

namespace Space

def specToJson (space : Space) : Json :=
  .ofFields <|
    [("tierName", .string space.tier)] ++
    Json.present "targetCluster" .string space.targetCluster

def statusToJson (space : Space) : Json :=
  .ofFields <|
    Json.present "targetCluster" .string space.landedCluster ++
    Json.presentList "provisionedNamespaces" .string space.provisioned ++
    [("conditions", Condition.listToJson space.conditions)]

def toJson (space : Space) : Json :=
  .ofFields
    [("metadata", space.metadata.toJson), ("spec", space.specToJson),
      ("status", space.statusToJson)]

def specOfJson? (document : Json) : Option (String × Option String) := do
  let fields ← document.record? ["tierName", "targetCluster"]
  let tier ← Json.required fields "tierName" Json.string?
  let targetCluster ← Json.optional fields "targetCluster" Json.string?
  some (tier, targetCluster)

def statusOfJson? (document : Json) : Option (Option String × List String × Conditions) := do
  let fields ← document.record? ["targetCluster", "provisionedNamespaces", "conditions"]
  let landedCluster ← Json.optional fields "targetCluster" Json.string?
  let provisioned ←
    Json.defaulted fields "provisionedNamespaces" [] (Json.listOf? Json.string?)
  let conditions ← Json.defaulted fields "conditions" [] Condition.listOfJson?
  some (landedCluster, provisioned, conditions)

def ofJson? (document : Json) : Option Space := do
  let fields ← document.record? ["metadata", "spec", "status"]
  let metadata ← Json.required fields "metadata" Metadata.ofJson?
  let (tier, targetCluster) ← Json.required fields "spec" specOfJson?
  let (landedCluster, provisioned, conditions) ←
    Json.defaulted fields "status" (none, [], []) statusOfJson?
  some { metadata, tier, targetCluster, landedCluster, provisioned, conditions }

instance : Keyed Space := ⟨fun space => space.metadata.key⟩

instance : WithMetadata Space where
  metadata space := space.metadata
  setMetadata space metadata := { space with metadata }
  set_get _ := rfl

instance : WithConditions Space where
  conditions space := space.conditions
  setConditions space conditions := { space with conditions }
  set_get _ := rfl

end Space

end Eventually
