import Eventually.Poll.Error
import Eventually.Poll.Exchange

namespace Eventually

-- What an answer means to a poll: its end, or something to remember.
inductive Verdict (ρ μ : Type) where
  | settled (result : Except PollError ρ)
  | undecided (memory : μ)

-- The calls of a poll in their order, when the last one ended, and what that left.
structure Rounds (σ β ρ μ : Type) where
  exchanges : List (Exchange β)
  finish : Duration
  state : σ
  verdict : Verdict ρ μ

namespace Rounds

def before (first : Exchange β) (rounds : Rounds σ β ρ μ) : Rounds σ β ρ μ :=
  { rounds with exchanges := first :: rounds.exchanges }

end Rounds

-- A call, how its answers are judged, and the time it may take.
structure Poll (σ β ρ μ : Type) where
  query : Query σ β
  judge : Exchange β → μ → Verdict ρ μ
  clock : Clock
  schedule : Schedule

namespace Poll

def ask (poll : Poll σ β ρ μ) (now : Duration) (state : σ) : Exchange β × σ :=
  poll.query.exchange poll.clock poll.schedule now state

-- Calls at once, and again a tick after each undecided answer that came before the timeout.
def rounds (poll : Poll σ β ρ μ) (now : Duration) (state : σ) (memory : μ) : Rounds σ β ρ μ :=
  let asked := poll.ask now state
  match poll.judge asked.1 memory with
  | .settled result => ⟨[asked.1], asked.1.finish, asked.2, .settled result⟩
  | .undecided memory =>
      if _ : asked.1.finish.nanos < poll.schedule.timeout.nanos then
        (poll.rounds (poll.clock.wake asked.1.finish poll.schedule.tick) asked.2 memory).before
          asked.1
      else ⟨[asked.1], asked.1.finish, asked.2, .undecided memory⟩
termination_by poll.schedule.timeout.nanos - now.nanos
decreasing_by
  have hstart := poll.query.le_finish poll.clock poll.schedule now state
  have hwait := poll.clock.lt_wake asked.1.finish poll.schedule.tick_pos
  simp only [asked, ask] at *
  omega

end Poll

-- A poll as it went from its start at time zero, and how it ended.
structure Run (σ β ρ : Type) where
  exchanges : List (Exchange β)
  finish : Duration
  state : σ
  outcome : Except PollError ρ

namespace Run

-- A poll that ended before it began.
def refused (state : σ) (e : PollError) : Run σ β ρ := ⟨[], .zero, state, .error e⟩

end Run

end Eventually
