import Eventually.Duration
import Eventually.Key

namespace Eventually

inductive StoreError where
  | notFound (key : Key)
  | backend (message : String)
deriving DecidableEq

namespace StoreError

def message : StoreError → String
  | notFound key => key.text ++ " not found"
  | backend reason => "store error: " ++ reason

def isNotFound : StoreError → Bool
  | notFound _ => true
  | backend _ => false

end StoreError

-- How a call ends that is waited for: when, with which answer, and in which state of the store.
structure Completion (σ β : Type) where
  latency : Duration
  answer : Except StoreError β
  state : σ

-- What a call comes to. One without completion never answers. A caller who gives up before the
-- completion leaves the store in a state that may depend on how long it waited.
structure Reply (σ β : Type) where
  completion : Option (Completion σ β)
  abandoned : Duration → σ

namespace Reply

def atOnce (answer : Except StoreError β) (state : σ) : Reply σ β :=
  ⟨some ⟨.zero, answer, state⟩, fun _ => state⟩

end Reply

-- Read access to stored objects. Calls depend on the time at which they are made, since a store
-- changes also when nobody calls it. A scope of none lists the objects of all namespaces.
structure Service (σ α : Type) where
  get : Key → Duration → σ → Reply σ α
  list : Option String → Duration → σ → Reply σ (List α)

end Eventually
