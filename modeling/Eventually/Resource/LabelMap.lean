import Eventually.Json.Record

namespace Eventually

-- Labels or annotations: one value under each key, the keys in ascending order.
structure LabelMap where
  entries : Entries String
  ordered : Entries.Ordered entries
deriving DecidableEq

namespace LabelMap

def empty : LabelMap := ⟨[], List.Pairwise.nil⟩

def get? (labels : LabelMap) (key : String) : Option String := Entries.find? key labels.entries

def insert (labels : LabelMap) (key value : String) : LabelMap :=
  ⟨Entries.insert key value labels.entries, Entries.insert_ordered key value labels.ordered⟩

def erase (labels : LabelMap) (key : String) : LabelMap :=
  ⟨Entries.erase key labels.entries, Entries.erase_ordered key labels.ordered⟩

def isEmpty (labels : LabelMap) : Bool := labels.entries.isEmpty

def toJson (labels : LabelMap) : Json :=
  .object (labels.entries.map fun entry => (entry.1, .string entry.2))

def entry? (field : String × Json) : Option (String × String) :=
  field.2.string?.map fun value => (field.1, value)

def ofJson? : Json → Option LabelMap
  | .object fields =>
      (fields.mapM entry?).map fun entries =>
        ⟨Entries.ofList entries, Entries.ofList_ordered entries⟩
  | _ => none

end LabelMap

end Eventually
