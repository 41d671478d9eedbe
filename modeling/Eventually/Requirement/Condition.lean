import Eventually.Assertion.Basic
import Eventually.Resource.Condition

namespace Eventually

variable [Stamps]

-- A reason of none is not looked at.
inductive ConditionRequirement where
  | present (type : String)
  | holds (type : String) (status : ConditionStatus) (reason : Option String)
  | absent (type : String)
deriving DecidableEq

namespace ConditionRequirement

def ready : ConditionRequirement := holds "Ready" .true none

def describe : ConditionRequirement → String
  | present type => "condition " ++ type ++ " present"
  | holds type status none => "condition " ++ type ++ "=" ++ status.text
  | holds type status (some reason) =>
      "condition " ++ type ++ "=" ++ status.text ++ " (" ++ reason ++ ")"
  | absent type => "no condition " ++ type

def missing (type : String) : String := "missing condition '" ++ type ++ "'"

def statusFailures (type : String) (status : ConditionStatus) (c : Condition) : List String :=
  if c.status = status then []
  else ["expected condition '" ++ type ++ "' to be " ++ status.text ++ ", got " ++ c.status.text]

def reasonFailures (type : String) (reason : Option String) (c : Condition) : List String :=
  match reason with
  | none => []
  | some expected =>
      if c.reason = some expected then []
      else
        ["expected condition '" ++ type ++ "' reason '" ++ expected ++ "', got '" ++
          c.reason.getD "" ++ "'"]

def failures (conditions : Conditions) : ConditionRequirement → List String
  | present type =>
      if (Condition.find? conditions type).isSome then [] else [missing type]
  | holds type status reason =>
      match Condition.find? conditions type with
      | none => [missing type]
      | some c => statusFailures type status c ++ reasonFailures type reason c
  | absent type =>
      match Condition.find? conditions type with
      | none => []
      | some c => ["expected no condition '" ++ type ++ "', got status " ++ c.status.text]

def establish (status : ConditionStatus) (reason : Option String) (c : Condition) : Condition :=
  { c with status := status, reason := reason.or c.reason }

-- Changes the first condition of the type, or adds one behind all others.
def upsert (type : String) (status : ConditionStatus) (reason : Option String) :
    Conditions → Conditions
  | [] => [establish status reason { type, status }]
  | c :: rest =>
      if c.type = type then establish status reason c :: rest
      else c :: upsert type status reason rest

def fix (conditions : Conditions) : ConditionRequirement → Conditions
  | present type =>
      if (Condition.find? conditions type).isSome then conditions
      else conditions ++ [{ type, status := .unknown }]
  | holds type status reason => upsert type status reason conditions
  | absent type => conditions.filter fun c => c.type ≠ type

def leaf (r : ConditionRequirement) : Leaf Conditions where
  description := r.describe
  check conditions := (r.failures conditions).map .failure
  fixer := some fun conditions => r.fix conditions

end ConditionRequirement

end Eventually
