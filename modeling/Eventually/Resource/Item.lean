import Eventually.Key

namespace Eventually

-- The plainest stored object: a name in a namespace, with one number.
structure Item where
  scope : String
  name : String
  value : Int64
deriving DecidableEq

namespace Item

def toJson (item : Item) : Json :=
  .ofFields
    [("namespace", .string item.scope), ("name", .string item.name),
      ("value", .int item.value.toInt)]

def ofJson? (document : Json) : Option Item := do
  let fields ← document.record? ["namespace", "name", "value"]
  let scope ← Json.required fields "namespace" Json.string?
  let name ← Json.required fields "name" Json.string?
  let value ← Json.required fields "value" Json.int64?
  some { scope, name, value }

instance : Keyed Item := ⟨fun item => ⟨some item.scope, item.name⟩⟩

end Item

end Eventually
