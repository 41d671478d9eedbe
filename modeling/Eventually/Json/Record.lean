import Eventually.Json.Basic

namespace Eventually

namespace Json

-- A record with the given field names is written as an object, or as an array that has the values
-- in the order of the names and may end early.
def record? (names : List String) : Json → Option (List (String × Json))
  | object fields => some fields
  | array items => if items.length ≤ names.length then some (names.zip items) else none
  | _ => none

def required (fields : List (String × Json)) (name : String) (read? : Json → Option α) :
    Option α :=
  (Entries.find? name fields).bind read?

-- A field that may be missing, and then has the given value. It may not be null.
def defaulted (fields : List (String × Json)) (name : String) (value : α)
    (read? : Json → Option α) : Option α :=
  match Entries.find? name fields with
  | none => some value
  | some document => read? document

-- A field that may be missing or null, which mean the same.
def optional (fields : List (String × Json)) (name : String) (read? : Json → Option α) :
    Option (Option α) :=
  match Entries.find? name fields with
  | none => some none
  | some null => some none
  | some document => (read? document).map some

def string? : Json → Option String
  | string value => some value
  | _ => none

def bool? : Json → Option Bool
  | bool value => some value
  | _ => none

def array? : Json → Option (List Json)
  | array items => some items
  | _ => none

-- A JSON integer of the signed 64-bit range; a double is none, whatever its value.
def int64? : Json → Option Int64
  | number (.int value) =>
      if Int64.minValue.toInt ≤ value ∧ value ≤ Int64.maxValue.toInt then some (Int64.ofInt value)
      else none
  | _ => none

def natBelow? (bound : Nat) : Json → Option Nat
  | number (.int value) =>
      if 0 ≤ value ∧ value < bound then some value.toNat else none
  | _ => none

def listOf? (read? : Json → Option α) (document : Json) : Option (List α) :=
  document.array?.bind fun items => items.mapM read?

-- What writing puts into an object for a field that may be absent.
def present (name : String) (write : α → Json) : Option α → List (String × Json)
  | some value => [(name, write value)]
  | none => []

def presentList (name : String) (write : α → Json) (items : List α) : List (String × Json) :=
  if items.isEmpty then [] else [(name, array (items.map write))]

end Json

end Eventually
