import Eventually.Key
import Eventually.Resource.LabelMap
import Eventually.Resource.Stamps

namespace Eventually

variable [Stamps]

-- What every object carries besides its own content.
structure Metadata where
  name : String
  scope : Option String := none
  labels : LabelMap := .empty
  annotations : LabelMap := .empty
  finalizers : List String := []
  uid : Option Stamps.Uid := none
  generation : Int64 := 0
  created : Option Stamps.Instant := none
deriving DecidableEq

namespace Metadata

def key (m : Metadata) : Key := ⟨m.scope, m.name⟩

def fieldNames : List String :=
  ["name", "namespace", "labels", "annotations", "finalizers", "uid", "generation",
    "creationTimestamp"]

def labelField (name : String) (labels : LabelMap) : List (String × Json) :=
  if labels.isEmpty then [] else [(name, labels.toJson)]

-- Absent and empty parts are left out, the generation never is.
def toJson (m : Metadata) : Json :=
  .ofFields <|
    [("name", .string m.name)] ++
    Json.present "namespace" .string m.scope ++
    labelField "labels" m.labels ++
    labelField "annotations" m.annotations ++
    Json.presentList "finalizers" .string m.finalizers ++
    Json.present "uid" (fun uid => .string (Stamps.uidText uid)) m.uid ++
    [("generation", .int m.generation.toInt)] ++
    Json.present "creationTimestamp" (fun instant => .string (Stamps.instantText instant)) m.created

def ofJson? (document : Json) : Option Metadata := do
  let fields ← document.record? fieldNames
  let name ← Json.required fields "name" Json.string?
  let scope ← Json.optional fields "namespace" Json.string?
  let labels ← Json.defaulted fields "labels" .empty LabelMap.ofJson?
  let annotations ← Json.defaulted fields "annotations" .empty LabelMap.ofJson?
  let finalizers ← Json.defaulted fields "finalizers" [] (Json.listOf? Json.string?)
  let uid ← Json.optional fields "uid" fun value => value.string?.bind Stamps.uid?
  let generation ← Json.defaulted fields "generation" 0 Json.int64?
  let created ← Json.optional fields "creationTimestamp" fun value =>
    value.string?.bind Stamps.instant?
  some { name, scope, labels, annotations, finalizers, uid, generation, created }

instance : Keyed Metadata := ⟨key⟩

end Metadata

-- Objects with metadata, which can be read and replaced.
class WithMetadata (α : Type) where
  metadata : α → Metadata
  setMetadata : α → Metadata → α
  set_get : ∀ a, setMetadata a (metadata a) = a

end Eventually
