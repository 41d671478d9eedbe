import Eventually.Assertion.Basic
import Eventually.Resource.UserSignup

namespace Eventually

variable [Stamps]

inductive UserSignupRequirement where
  | username (username : String)
  | approved (approved : Bool)
deriving DecidableEq

namespace UserSignupRequirement

def flagText (flag : Bool) : String := if flag then "true" else "false"

def describe : UserSignupRequirement → String
  | username u => "username is " ++ u
  | approved flag => "approved is " ++ flagText flag

def failures (signup : UserSignup) : UserSignupRequirement → List String
  | username u =>
      if signup.username = u then []
      else ["expected username '" ++ u ++ "', got '" ++ signup.username ++ "'"]
  | approved flag =>
      if signup.approved = flag then []
      else ["expected approved " ++ flagText flag ++ ", got " ++ flagText signup.approved]

def fix (signup : UserSignup) : UserSignupRequirement → UserSignup
  | username u => { signup with username := u }
  | approved flag => { signup with approved := flag }

def leaf (r : UserSignupRequirement) : Leaf UserSignup where
  description := r.describe
  check signup := (r.failures signup).map .failure
  fixer := some fun signup => r.fix signup

end UserSignupRequirement

namespace UserSignup

-- The name given is the service's choice, so a repaired copy does not claim one.
def compliantUsernameFailures (expected : String) (signup : UserSignup) : List String :=
  match signup.compliantUsername with
  | some actual =>
      if actual = expected then []
      else ["expected compliant username '" ++ expected ++ "', got '" ++ actual ++ "'"]
  | none => ["expected compliant username '" ++ expected ++ "', none set"]

def compliantUsernameLeaf (expected : String) : Leaf UserSignup where
  description := "compliant username is " ++ expected
  check signup := (compliantUsernameFailures expected signup).map .failure

end UserSignup

end Eventually
