import Eventually.Proofs.Duration
import Eventually.Proofs.Poll.Course

namespace Eventually

open Duration (Parts)

namespace PollConfig

def ofParts (timeout tick : Parts) : PollConfig := ⟨timeout.whole, tick.whole⟩

-- The budget of a call as it is worked out when the call is made, in seconds and nanoseconds. There
-- is none if the last moment that a call may reach is too late for a duration.
def budget? (timeout tick elapsed : Parts) : Option Parts :=
  (timeout.add? (max tick .millisecond)).map fun last =>
    min (max (timeout.sub elapsed) (max tick .millisecond)) (last.sub elapsed)

section Parts

variable (timeout tick : Parts)

theorem whole_pause : (max tick .millisecond).whole = (ofParts timeout tick).effectiveTick :=
  congrArg Duration.mk (Parts.whole_max ..)

theorem whole_last :
    (timeout.add? (max tick .millisecond)).map Parts.whole =
      timeout.whole.add? (ofParts timeout tick).effectiveTick := by
  rw [Parts.add?_whole, whole_pause timeout]

theorem exists_last (hrange : (ofParts timeout tick).InRange) :
    ∃ last, timeout.add? (max tick .millisecond) = some last ∧
      last.whole.nanos = timeout.whole.nanos + (ofParts timeout tick).effectiveTick.nanos := by
  have hsum : timeout.whole.add? (ofParts timeout tick).effectiveTick =
      some ⟨timeout.whole.nanos + (ofParts timeout tick).effectiveTick.nanos⟩ := if_pos hrange
  obtain ⟨last, hlast, hwhole⟩ :=
    Option.map_eq_some_iff.mp ((whole_last timeout tick).trans hsum)
  exact ⟨last, hlast, congrArg Duration.nanos hwhole⟩

-- The sum of timeout and tick is the only thing that can fail, and the time of the call has no part
-- in it. So there is no budget for the first call either if there is none for some call.
theorem budget?_eq_none_iff (elapsed : Parts) :
    budget? timeout tick elapsed = none ↔ ¬(ofParts timeout tick).InRange := by
  rw [budget?, Option.map_eq_none_iff]
  constructor
  · intro hnone hrange
    obtain ⟨last, hlast, _⟩ := exists_last timeout tick hrange
    cases hnone.symm.trans hlast
  · intro hrange
    have hsum : timeout.whole.add? (ofParts timeout tick).effectiveTick = none := if_neg hrange
    exact Option.map_eq_none_iff.mp ((whole_last timeout tick).trans hsum)

-- The longest timeout that leaves room for the least tick.
example : budget? ⟨UInt64.size - 1, 998999999, by decide, by decide⟩ .zero .zero =
    some ⟨UInt64.size - 1, 998999999, by decide, by decide⟩ := by decide

example : budget? ⟨UInt64.size - 1, 999000000, by decide, by decide⟩ .zero .zero = none := by decide

-- Sums, differences and choices in two fields come to the budget of the schedule.
theorem budget?_whole (hrange : (ofParts timeout tick).InRange) (elapsed : Duration) :
    (budget? timeout tick (.ofDuration elapsed)).map Parts.whole =
      some ((ofParts timeout tick).schedule.budget elapsed) := by
  obtain ⟨last, hlast, hnanos⟩ := exists_last timeout tick hrange
  have hpause := congrArg Duration.nanos (whole_pause timeout tick)
  -- that the time of the call may have been cut down to the longest duration makes no difference
  have hcapped : ∀ time : Parts, time.whole.nanos - min elapsed.nanos (Duration.limit - 1) =
      time.whole.nanos - elapsed.nanos := by
    intro time
    have hlimit := time.whole_lt_limit
    omega
  have hbudget : (min (max (timeout.sub (.ofDuration elapsed)) (max tick .millisecond))
      (last.sub (.ofDuration elapsed))).whole.nanos =
        ((ofParts timeout tick).schedule.budget elapsed).nanos := by
    rw [Parts.whole_min, Parts.whole_max, Parts.whole_sub, Parts.whole_sub,
      Parts.whole_ofDuration, hcapped, hcapped, hpause, hnanos]
    rfl
  rw [budget?, hlast, Option.map_some, Option.map_some]
  exact congrArg some (congrArg Duration.mk hbudget)

end Parts

end PollConfig

-- The budget of a call by the time of its start. Until the timeout it is what is left of that, or a
-- tick if that is more. After the timeout it is what is left of one last tick.
structure Exchange.Budgeted (e : Exchange β) (config : PollConfig) : Prop where
  in_time : e.start.nanos ≤ config.timeout.nanos →
    e.budget.nanos =
        max (config.timeout.nanos - e.start.nanos) config.effectiveTick.nanos ∧
      config.effectiveTick.nanos ≤ e.budget.nanos ∧
      e.start.nanos + e.budget.nanos ≤ config.timeout.nanos + config.effectiveTick.nanos
  overdue : config.timeout.nanos < e.start.nanos →
    e.budget.nanos = config.timeout.nanos + config.effectiveTick.nanos - e.start.nanos ∧
      e.budget.nanos < config.effectiveTick.nanos ∧
      (config.timeout.nanos + config.effectiveTick.nanos ≤ e.start.nanos → e.budget = .zero)

namespace Query

theorem Step.budget_eq {query : Query σ β} (hstep : query.Step clock schedule now state e next) :
    e.budget = schedule.budget e.start := by
  cases hstep <;> rfl

theorem Calls.budget_eq {query : Query σ β}
    (hcalls : query.Calls clock schedule now state es last) :
    ∀ e ∈ es, e.budget = schedule.budget e.start := by
  induction hcalls with
  | nil => exact List.forall_mem_nil _
  | cons _ hstep _ ih => exact List.forall_mem_cons.mpr ⟨hstep.budget_eq, ih⟩

end Query

theorem Exchange.budgeted_of_eq {e : Exchange β} {config : PollConfig}
    (hbudget : e.budget = config.schedule.budget e.start) : e.Budgeted config where
  in_time hstart := by
    have htick := config.schedule.tick_le_budget hstart
    rw [hbudget]
    simp only [PollConfig.schedule, Schedule.budget, Schedule.hardLimit] at htick ⊢
    omega
  overdue hstart := by
    have htick := config.schedule.budget_lt_tick hstart
    rw [hbudget]
    simp only [PollConfig.schedule, Schedule.budget, Schedule.hardLimit, Duration.zero,
      Duration.mk.injEq] at htick ⊢
    omega

-- What a poll makes of its timing. It is refused if timeout and tick together are too long for a
-- duration, unless it does not get as far as that. Then a budget cannot be worked out at any time,
-- so not for a first call either, and no call is made. Otherwise each call has its budget.
structure Guarded (timeout tick : Parts) (resolved : Prop)
    (result : Except Refusal (Run σ β ρ)) : Prop where
  refused_iff : result = .error .durationOverflow ↔ resolved ∧ Duration.limit ≤
    timeout.whole.nanos + (PollConfig.ofParts timeout tick).effectiveTick.nanos
  unbudgeted : result = .error .durationOverflow →
    ∀ elapsed, PollConfig.budget? timeout tick elapsed = none
  worked_out : ∀ run, result = .ok run → ∀ e ∈ run.exchanges,
    (PollConfig.budget? timeout tick (.ofDuration e.start)).map Parts.whole = some e.budget
  budgeted : ∀ run, result = .ok run → ∀ e ∈ run.exchanges,
    e.Budgeted (.ofParts timeout tick)

namespace Watch

theorem Course.guarded {lookup : Except IdentityError κ} {query : κ → Query σ β}
    {timeout tick : Parts} {result : Except Refusal (Run σ β ρ)}
    (hcourse : Course lookup query clock (.ofParts timeout tick) state result) :
    Guarded timeout tick (∃ sought, lookup = .ok sought) result := by
  cases hcourse with
  | lost hlookup =>
      refine ⟨iff_of_false nofun ?_, nofun, ?_, ?_⟩
      · rintro ⟨⟨sought, hsought⟩, _⟩
        cases hlookup.symm.trans hsought
      · rintro _ ⟨⟩
        exact List.forall_mem_nil _
      · rintro _ ⟨⟩
        exact List.forall_mem_nil _
  | @overflowing sought hlookup hrange =>
      refine ⟨iff_of_true rfl ⟨⟨sought, hlookup⟩, Nat.not_lt.mp hrange⟩, fun _ elapsed => ?_,
        nofun, nofun⟩
      exact (PollConfig.budget?_eq_none_iff timeout tick elapsed).mpr hrange
  | calling hlookup hrange hcalls =>
      refine ⟨iff_of_false nofun fun hover => Nat.not_lt.mpr hover.2 hrange, nofun, ?_, ?_⟩
      · rintro _ ⟨⟩ e he
        rw [PollConfig.budget?_whole timeout tick hrange, hcalls.budget_eq e he]
      · rintro _ ⟨⟩ e he
        exact Exchange.budgeted_of_eq (hcalls.budget_eq e he)

-- A poll is refused for its timing exactly if it knows what to look for and its last moment is too
-- late for a duration, on every store and before any call. The calls of every other poll have the
-- budgets that they should, up to the longest durations there are.
theorem calls_budgeted [Writable α] (watch : Watch α) (timeout tick : Parts)
    (service : Service σ α) (clock : Clock) (state : σ) :
    let timed := { watch with config := .ofParts timeout tick }
    Guarded timeout tick (∃ key, timed.lookupKey = .ok key)
        (timed.matching service clock state) ∧
      Guarded timeout tick (∃ scope, timed.lookupScope = .ok scope)
        (timed.firstMatching service clock state) ∧
      Guarded timeout tick (∃ key, timed.lookupKey = .ok key)
        (timed.deleted service clock state) := by
  intro timed
  exact ⟨(timed.matching_course service clock state).guarded,
    (timed.firstMatching_course service clock state).guarded,
    (timed.deleted_course service clock state).guarded⟩

end Watch

end Eventually
