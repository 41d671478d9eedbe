import Eventually.Shared
import Eventually.Store.Shelf

namespace Eventually

-- What can be asked of a shelf. An update may do anything with the object that it finds.
inductive ShelfCall (α : Type) where
  | insert (obj : α)
  | update (key : Key) (f : α → α)
  | delete (key : Key)
  | get (key : Key)
  | list (scope : Option String)
  | peek (key : Key)
  | length
  | isEmpty
  | calls

namespace ShelfCall

-- Only calls through the service are counted.
def isServed : ShelfCall α → Bool
  | get _ | list _ => true
  | _ => false

def isRead : ShelfCall α → Bool
  | insert _ | update .. | delete _ => false
  | _ => true

end ShelfCall

namespace Shelf

variable [Keyed α]

def step (shelf : Shelf α) : ShelfCall α → Shelf α
  | .insert obj => shelf.insert obj
  | .update key f => shelf.update key f
  | .delete key => (shelf.take key).2
  | .get _ | .list _ => shelf.served
  | .peek _ | .length | .isEmpty | .calls => shelf

def run (shelf : Shelf α) (calls : List (ShelfCall α)) : Shelf α := calls.foldl step shelf

end Shelf

-- One step of using shelves, handles being numbered in the order of their making. A new shelf is
-- stocked with objects, and a handle can be cloned or called.
inductive ShelfStep (α : Type) where
  | stock (objects : List α)
  | clone (handle : Nat)
  | call (handle : Nat) (call : ShelfCall α)

-- Shelves behind the handles of those who use them.
abbrev Shelves (α : Type) := Shared (Shelf α)

namespace Shelves

variable [Keyed α]

def empty : Shelves α := ⟨[], []⟩

def step (shelves : Shelves α) : ShelfStep α → Shelves α
  | .stock objects => shelves.fresh (.ofObjects objects)
  | .clone handle => shelves.share handle
  | .call handle call => shelves.modify handle fun shelf => shelf.step call

def run (shelves : Shelves α) (steps : List (ShelfStep α)) : Shelves α := steps.foldl step shelves

end Shelves

end Eventually
