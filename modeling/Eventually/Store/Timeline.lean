import Eventually.Store.Shelf

namespace Eventually

inductive Write (α : Type) where
  | insert (obj : α)
  | update (key : Key) (obj : α)
  | delete (key : Key)

-- A write by somebody else, at a time after the start.
structure Event (α : Type) where
  due : Duration
  write : Write α

-- A shelf with the writes that are still to come, in the order of their times.
structure Timeline (α : Type) where
  shelf : Shelf α
  pending : List (Event α)

namespace Timeline

variable [Keyed α]

def apply (shelf : Shelf α) : Write α → Shelf α
  | .insert obj => shelf.insert obj
  | .update key obj => shelf.update key fun _ => obj
  | .delete key => shelf.delete key

def isDue (now : Duration) (event : Event α) : Bool := event.due.nanos ≤ now.nanos

-- Makes the writes that are due.
def advance (timeline : Timeline α) (now : Duration) : Timeline α :=
  let due := timeline.pending.takeWhile (isDue now)
  { shelf := due.foldl (fun shelf event => apply shelf event.write) timeline.shelf
    pending := timeline.pending.dropWhile (isDue now) }

-- A call is served after the writes that are due at its time.
def service : Service (Timeline α) α where
  get key now timeline :=
    let current := timeline.advance now
    .atOnce (current.shelf.fetch key) { current with shelf := current.shelf.served }
  list scope now timeline :=
    let current := timeline.advance now
    .atOnce (.ok (current.shelf.listed scope)) { current with shelf := current.shelf.served }

end Timeline

end Eventually
