import Eventually.Json.Record

namespace Eventually

-- Where a store keeps an object. The scope is the object's namespace, none for an object that
-- belongs to the whole cluster; the empty namespace is one of its own.
structure Key where
  scope : Option String
  name : String
deriving DecidableEq

namespace Key

def inScope (scope name : String) : Key := ⟨some scope, name⟩

def text (key : Key) : String :=
  match key.scope with
  | some scope => scope ++ "/" ++ key.name
  | none => key.name

-- Keys without namespace come first, then by namespace and name.
def le (a b : Key) : Bool :=
  match a.scope, b.scope with
  | none, none => a.name ≤ b.name
  | none, some _ => true
  | some _, none => false
  | some s, some t => s < t || (s == t && a.name ≤ b.name)

def toJson (key : Key) : Json :=
  .ofFields [("namespace", .ofOption .string key.scope), ("name", .string key.name)]

def ofJson? (document : Json) : Option Key := do
  let fields ← document.record? ["namespace", "name"]
  let scope ← Json.optional fields "namespace" Json.string?
  let name ← Json.required fields "name" Json.string?
  some ⟨scope, name⟩

end Key

-- Objects that know the key they are stored under.
class Keyed (α : Type) where
  key : α → Key

end Eventually
