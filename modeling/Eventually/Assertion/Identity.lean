import Eventually.Assertion.Marker
import Eventually.Key
import Eventually.Text.Quoted

namespace Eventually

-- Why assertions do not say which object they are about.
inductive IdentityError where
  | missingName
  | missingScope
  | ambiguousName (values : List String)
  | ambiguousScope (values : List String)
deriving DecidableEq

namespace IdentityError

def message : IdentityError → String
  | missingName =>
      "no assertion identifies the object name; add a name assertion or pass an explicit key"
  | missingScope =>
      "no assertion identifies the object namespace; add a namespace assertion or pass an explicit key"
  | ambiguousName values => "assertions disagree on the object name: " ++ Text.quotedList values
  | ambiguousScope values =>
      "assertions disagree on the object namespace: " ++ Text.quotedList values

end IdentityError

namespace Checklist

-- The one namespace that the members name, if they name any. Repetitions count once.
def scopeHint (list : Checklist α) : Except IdentityError (Option String) :=
  match list.scopes.eraseDups with
  | [] => .ok none
  | [scope] => .ok (some scope)
  | scopes => .error (.ambiguousScope scopes)

-- The key that the members pin down. The name is settled before the namespace is looked at.
def key (list : Checklist α) : Except IdentityError Key :=
  match list.names.eraseDups with
  | [] => .error .missingName
  | [name] =>
      match list.scopeHint with
      | .error e => .error e
      | .ok none => .error .missingScope
      | .ok (some scope) => .ok (.inScope scope name)
  | names => .error (.ambiguousName names)

end Checklist

end Eventually
