import Eventually.Store.Basic

namespace Eventually

-- Objects in the order in which their keys were first inserted, and how many calls were served.
structure Shelf (α : Type) where
  objects : List α := []
  calls : Nat := 0

namespace Shelf

variable [Keyed α]

def has (key : Key) (obj : α) : Bool := Keyed.key obj == key

-- Changes the first object under a key, none if there is no such object.
def changeFirst? (key : Key) (f : α → α) : List α → Option (List α)
  | [] => none
  | obj :: rest =>
      if has key obj then some (f obj :: rest) else (changeFirst? key f rest).map (obj :: ·)

-- An object takes the place of the one under its key, or the last place.
def insert (shelf : Shelf α) (obj : α) : Shelf α :=
  { shelf with
    objects :=
      (changeFirst? (Keyed.key obj) (fun _ => obj) shelf.objects).getD (shelf.objects ++ [obj]) }

def ofObjects (objects : List α) : Shelf α := objects.foldl insert {}

-- Changes an object where it stands, whatever key it has afterwards.
def update? (shelf : Shelf α) (key : Key) (f : α → α) : Option (Shelf α) :=
  (changeFirst? key f shelf.objects).map fun objects => { shelf with objects }

def update (shelf : Shelf α) (key : Key) (f : α → α) : Shelf α := (shelf.update? key f).getD shelf

def peek? (shelf : Shelf α) (key : Key) : Option α := shelf.objects.find? (has key)

def delete (shelf : Shelf α) (key : Key) : Shelf α :=
  { shelf with objects := shelf.objects.eraseP (has key) }

-- Deletes the object under a key and hands it out.
def take (shelf : Shelf α) (key : Key) : Option α × Shelf α := (shelf.peek? key, shelf.delete key)

def length (shelf : Shelf α) : Nat := shelf.objects.length

def isEmpty (shelf : Shelf α) : Bool := shelf.objects.isEmpty

-- An object of the whole cluster is in no namespace, not even the empty one.
def inScope (scope : Option String) (obj : α) : Bool :=
  match scope with
  | some name => (Keyed.key obj).scope == some name
  | none => true

def listed (shelf : Shelf α) (scope : Option String) : List α :=
  shelf.objects.filter (inScope scope)

def fetch (shelf : Shelf α) (key : Key) : Except StoreError α :=
  match shelf.peek? key with
  | some obj => .ok obj
  | none => .error (.notFound key)

def served (shelf : Shelf α) : Shelf α := { shelf with calls := shelf.calls + 1 }

def text (shelf : Shelf α) : String :=
  "InMemoryStore \x7b object_count: " ++ toString shelf.length ++ ", calls: " ++
    toString shelf.calls ++ " \x7d"

-- A shelf answers at once and counts the call.
def service : Service (Shelf α) α where
  get key _ shelf := .atOnce (shelf.fetch key) shelf.served
  list scope _ shelf := .atOnce (.ok (shelf.listed scope)) shelf.served

end Shelf

end Eventually
