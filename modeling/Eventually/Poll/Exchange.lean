import Eventually.Clock
import Eventually.Poll.Config
import Eventually.Store.Basic

namespace Eventually

-- A timing whose tick is positive and whose last moment is a duration again.
structure Schedule where
  timeout : Duration
  tick : Duration
  tick_pos : 0 < tick.nanos

namespace Schedule

-- The last moment that a call may reach, one tick after the timeout.
def hardLimit (schedule : Schedule) : Nat := schedule.timeout.nanos + schedule.tick.nanos

-- A call gets what is left until the timeout, and a tick if that is longer, but nothing beyond
-- the hard limit.
def budget (schedule : Schedule) (elapsed : Duration) : Duration :=
  ⟨min (max (schedule.timeout.nanos - elapsed.nanos) schedule.tick.nanos)
    (schedule.hardLimit - elapsed.nanos)⟩

end Schedule

namespace PollConfig

theorem effectiveTick_pos (config : PollConfig) : 0 < config.effectiveTick.nanos := by
  simp only [effectiveTick]
  omega

-- None when timeout and effective tick together are too long for a duration.
def schedule? (config : PollConfig) : Option Schedule :=
  (config.timeout.add? config.effectiveTick).map fun _ =>
    ⟨config.timeout, config.effectiveTick, config.effectiveTick_pos⟩

end PollConfig

-- One call as it went: from when until when, with which budget, and the answer. A call that was
-- given up has the error that says so for its answer.
structure Exchange (β : Type) where
  start : Duration
  budget : Duration
  finish : Duration
  answer : Except StoreError β

-- A call of a store, and the error that stands for an answer that came too late.
structure Query (σ β : Type) where
  call : Duration → σ → Reply σ β
  late : Duration → StoreError

namespace Query

-- The end of a call that is given up.
def giveUp (query : Query σ β) (now budget deadline : Duration) (state : σ) : Exchange β × σ :=
  (⟨now, budget, deadline, .error (query.late budget)⟩,
    (query.call now state).abandoned ⟨deadline.nanos - now.nanos⟩)

-- Makes the call now. An answer at the very end of the budget is still taken, so one that needs no
-- time is taken also when no budget is left.
def exchange (query : Query σ β) (clock : Clock) (schedule : Schedule) (now : Duration)
    (state : σ) : Exchange β × σ :=
  let budget := schedule.budget now
  let deadline := clock.deadline now budget
  match (query.call now state).completion with
  | none => query.giveUp now budget deadline state
  | some c =>
      if now.nanos + c.latency.nanos ≤ deadline.nanos then
        (⟨now, budget, ⟨now.nanos + c.latency.nanos⟩, c.answer⟩, c.state)
      else query.giveUp now budget deadline state

theorem le_finish (query : Query σ β) (clock : Clock) (schedule : Schedule) (now : Duration)
    (state : σ) : now.nanos ≤ (query.exchange clock schedule now state).1.finish.nanos := by
  have hdeadline := clock.le_deadline now (schedule.budget now)
  simp only [exchange, giveUp]
  split
  · simp only
    omega
  · split <;> simp only <;> omega

end Query

end Eventually
