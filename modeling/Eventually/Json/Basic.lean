import Eventually.Entries
import Eventually.Number.Binary64

namespace Eventually

-- An integer never equals a double, not even one of the same value.
inductive Number where
  | int (value : Int)
  | double (value : Binary64)
deriving DecidableEq

namespace Number

def same : Number → Number → Bool
  | int a, int b => a == b
  | double a, double b => a.same b
  | _, _ => false

end Number

inductive Json where
  | null
  | bool (value : Bool)
  | number (value : Number)
  | string (value : String)
  | array (items : List Json)
  | object (fields : List (String × Json))

namespace Json

def int (value : Int) : Json := number (.int value)

def ofOption (write : α → Json) : Option α → Json
  | some value => write value
  | none => null

def strings (items : List String) : Json := array (items.map string)

-- The fields in any order, the last of several under one key counting.
def ofFields (fields : List (String × Json)) : Json := object (Entries.ofList fields)

-- Equality of documents: by structure, except that the two double zeros are one value.
mutual

def same : Json → Json → Bool
  | null, null => true
  | bool a, bool b => a == b
  | number a, number b => a.same b
  | string a, string b => a == b
  | array a, array b => sameItems a b
  | object a, object b => sameFields a b
  | _, _ => false

def sameItems : List Json → List Json → Bool
  | [], [] => true
  | a :: as, b :: bs => same a b && sameItems as bs
  | _, _ => false

def sameFields : List (String × Json) → List (String × Json) → Bool
  | [], [] => true
  | (k, a) :: as, (l, b) :: bs => k == l && same a b && sameFields as bs
  | _, _ => false

end

instance : BEq Json := ⟨same⟩

-- Documents whose objects keep their keys in strictly ascending order, at every depth.
mutual

def Ordered : Json → Prop
  | array items => OrderedItems items
  | object fields => Entries.Ordered fields ∧ OrderedFields fields
  | _ => True

def OrderedItems : List Json → Prop
  | [] => True
  | item :: rest => Ordered item ∧ OrderedItems rest

def OrderedFields : List (String × Json) → Prop
  | [] => True
  | (_, value) :: rest => Ordered value ∧ OrderedFields rest

end

end Json

end Eventually
