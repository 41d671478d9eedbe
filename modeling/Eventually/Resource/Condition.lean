import Eventually.Json.Record
import Eventually.Resource.Stamps

namespace Eventually

inductive ConditionStatus where
  | true
  | false
  | unknown
deriving DecidableEq

namespace ConditionStatus

def text : ConditionStatus → String
  | true => "True"
  | false => "False"
  | unknown => "Unknown"

def ofText? (s : String) : Option ConditionStatus :=
  [true, false, unknown].find? fun status => status.text == s

def toJson (status : ConditionStatus) : Json := .string status.text

-- A status may also be written as an object with it as the only key and no content.
def ofJson? : Json → Option ConditionStatus
  | .string s => ofText? s
  | .object [(s, .null)] => ofText? s
  | _ => none

end ConditionStatus

variable [Stamps]

structure Condition where
  type : String
  status : ConditionStatus
  reason : Option String := none
  message : Option String := none
  changed : Option Stamps.Instant := none
deriving DecidableEq

-- Conditions are kept in a list, and nothing keeps two of them from having one type.
abbrev Conditions := List Condition

namespace Condition

def toJson (condition : Condition) : Json :=
  .ofFields <|
    [("type", .string condition.type), ("status", condition.status.toJson)] ++
    Json.present "reason" .string condition.reason ++
    Json.present "message" .string condition.message ++
    Json.present "lastTransitionTime" (fun instant => .string (Stamps.instantText instant))
      condition.changed

def ofJson? (document : Json) : Option Condition := do
  let fields ← document.record? ["type", "status", "reason", "message", "lastTransitionTime"]
  let type ← Json.required fields "type" Json.string?
  let status ← Json.required fields "status" ConditionStatus.ofJson?
  let reason ← Json.optional fields "reason" Json.string?
  let message ← Json.optional fields "message" Json.string?
  let changed ← Json.optional fields "lastTransitionTime" fun value =>
    value.string?.bind Stamps.instant?
  some { type, status, reason, message, changed }

-- The first condition of a type is the one that counts.
def find? (conditions : Conditions) (type : String) : Option Condition :=
  conditions.find? fun condition => condition.type = type

def listToJson (conditions : Conditions) : Json := .array (conditions.map toJson)

def listOfJson? : Json → Option Conditions := Json.listOf? ofJson?

end Condition

-- Objects with conditions, which can be read and replaced.
class WithConditions (α : Type) where
  conditions : α → Conditions
  setConditions : α → Conditions → α
  set_get : ∀ a, setConditions a (conditions a) = a

end Eventually
