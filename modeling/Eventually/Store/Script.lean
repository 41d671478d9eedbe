import Eventually.Clock
import Eventually.Store.Basic

namespace Eventually

-- A prepared answer. Not found is said about the key that was asked for, unless one is given.
inductive Line (α : Type) where
  | objects (objects : List α)
  | notFound (key : Option Key)
  | backend (message : String)
  | silence

structure Cue (α : Type) where
  delay : Duration
  line : Line α

namespace Cue

-- The key that a list call is taken to have asked for.
def listKey : Key := ⟨none, "list"⟩

def answer? (asked : Key) (ofObjects : List α → Except StoreError β) :
    Line α → Option (Except StoreError β)
  | .objects objects => some (ofObjects objects)
  | .notFound key => some (.error (.notFound (key.getD asked)))
  | .backend message => some (.error (.backend message))
  | .silence => none

end Cue

namespace Script

-- The cue for a call by the number of calls before it. The last one serves all later calls.
def cue? (cues : List (Cue α)) (before : Nat) : Option (Cue α) := cues[before]?.or cues.getLast?

-- A call is counted when it is made, whether or not its answer is waited for.
def reply (clock : Clock) (cues : List (Cue α)) (asked : Key)
    (ofObjects : List α → Except StoreError β) (now : Duration) (before : Nat) : Reply Nat β where
  completion := do
    let cue ← cue? cues before
    let answer ← Cue.answer? asked ofObjects cue.line
    some ⟨⟨(clock.delayed now cue.delay).nanos - now.nanos⟩, answer, before + 1⟩
  abandoned _ := before + 1

def firstOf (asked : Key) (objects : List α) : Except StoreError α :=
  match objects.head? with
  | some obj => .ok obj
  | none => .error (.notFound asked)

-- A store that gives prepared answers, the state being the number of calls made.
def service (clock : Clock) (cues : List (Cue α)) : Service Nat α where
  get key := reply clock cues key (firstOf key)
  list _ := reply clock cues Cue.listKey .ok

end Script

end Eventually
