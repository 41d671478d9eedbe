import Eventually.Clock
import Eventually.Store.Basic

namespace Eventually

-- A store behind a front that still has to fail some calls.
structure Faulty (σ : Type) where
  inner : σ
  remaining : Nat

namespace Faulty

-- Every call waits for the delay first. Then it fails as long as failures remain, and after that it
-- goes on to the inner store. Nothing is used up and nobody called while a caller only waits.
def reply (clock : Clock) (delay : Duration) (operation : String)
    (call : Duration → σ → Reply σ β) (now : Duration) (state : Faulty σ) : Reply (Faulty σ) β :=
  let ready := clock.delayed now delay
  let wait := ready.nanos - now.nanos
  match state.remaining with
  | remaining + 1 =>
      { completion := some
          { latency := ⟨wait⟩
            answer := .error (.backend ("injected failure on " ++ operation))
            state := { state with remaining } }
        abandoned _ := state }
  | 0 =>
      let inner := call ready state.inner
      { completion := inner.completion.map fun c =>
          { latency := ⟨wait + c.latency.nanos⟩
            answer := c.answer
            state := { state with inner := c.state } }
        abandoned waited :=
          if waited.nanos < wait then state
          else { state with inner := inner.abandoned ⟨waited.nanos - wait⟩ } }

def service (clock : Clock) (delay : Duration) (inner : Service σ α) : Service (Faulty σ) α where
  get key := reply clock delay "get" (inner.get key)
  list scope := reply clock delay "list" (inner.list scope)

end Faulty

end Eventually
