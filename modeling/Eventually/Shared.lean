namespace Eventually

-- Values behind numbered handles. Several handles may lead to one cell and then see each other's
-- changes. Cells and handles are numbered in the order of their making.
structure Shared (α : Type u) where
  cells : List α
  handles : List Nat

namespace Shared

-- One value behind handle 0.
def single (value : α) : Shared α := ⟨[value], [0]⟩

def cell? (shared : Shared α) (handle : Nat) : Option Nat := shared.handles[handle]?

def read? (shared : Shared α) (handle : Nat) : Option α :=
  (shared.cell? handle).bind fun cell => shared.cells[cell]?

-- A new handle for a new cell.
def fresh (shared : Shared α) (value : α) : Shared α :=
  ⟨shared.cells ++ [value], shared.handles ++ [shared.cells.length]⟩

-- A new handle for the cell of an old one.
def share (shared : Shared α) (handle : Nat) : Shared α :=
  { shared with handles := shared.handles ++ (shared.cell? handle).toList }

def modify (shared : Shared α) (handle : Nat) (f : α → α) : Shared α :=
  match shared.cell? handle with
  | some cell => { shared with cells := shared.cells.modify cell f }
  | none => shared

-- What each handle leads to.
def views (shared : Shared α) : List α := shared.handles.filterMap fun cell => shared.cells[cell]?

end Shared

end Eventually
