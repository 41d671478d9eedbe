import Eventually.Proofs.Store.Quota
import Eventually.Store.Shelf

namespace Eventually

theorem Schedule.budget_le (schedule : Schedule) (now : Duration) :
    (schedule.budget now).nanos ≤ max schedule.timeout.nanos schedule.tick.nanos := by
  simp only [budget]
  omega

-- Whatever a poll comes to, it leaves the store as it was.
def Untouched (state : σ) (result : Except Refusal (Run σ β ρ)) : Prop :=
  ∀ run, result = .ok run → run.state = state

namespace Query

-- Calls that are not answered within their budgets, and change nothing when they are given up.
structure Stalls (query : Query σ β) (clock : Clock) (schedule : Schedule) (state : σ) : Prop where
  late : ∀ now, ∀ c ∈ (query.call now state).completion,
    (clock.deadline now (schedule.budget now)).nanos < now.nanos + c.latency.nanos
  abandoned_eq : ∀ now, (query.call now state).abandoned
    ⟨(clock.deadline now (schedule.budget now)).nanos - now.nanos⟩ = state

theorem Stalls.step {query : Query σ β} (hstalls : query.Stalls clock schedule state)
    (hstep : query.Step clock schedule now state e next) : next = state := by
  cases hstep with
  | answered c hc hintime => exact absurd hintime (Nat.not_le.mpr (hstalls.late now c hc))
  | elapsed => exact hstalls.abandoned_eq now

theorem Stalls.calls {query : Query σ β} (hstalls : query.Stalls clock schedule state)
    (hcalls : query.Calls clock schedule now state es last) : last = state := by
  induction hcalls with
  | nil => rfl
  | cons _ hstep _ ih =>
      cases hstalls.step hstep
      exact ih hstalls

end Query

theorem Watch.Course.untouched {lookup : Except IdentityError κ} {query : κ → Query σ β}
    {config : PollConfig} {result : Except Refusal (Run σ β ρ)}
    (hcourse : Course lookup query clock config state result)
    (hstalls : ∀ sought, (query sought).Stalls clock config.schedule state) :
    Untouched state result := by
  cases hcourse with
  | lost =>
      rintro _ ⟨⟩
      rfl
  | overflowing => nofun
  | @calling sought _ _ _ hcalls =>
      rintro _ ⟨⟩
      exact (hstalls sought).calls hcalls

namespace Faulty

-- A front stalls calls if the clock lets its delay last longer than timeout and tick.
theorem stalls {clock : Clock} {delay : Duration} {schedule : Schedule} {state : Faulty σ}
    {query : Query (Faulty σ) β} {call : Duration → σ → Reply σ β}
    (hcall : query.call = reply clock delay operation call)
    (htimeout : schedule.timeout.nanos + clock.granule ≤ (clock.cut delay).nanos)
    (htick : schedule.tick.nanos + clock.granule ≤ (clock.cut delay).nanos) :
    query.Stalls clock schedule state := by
  have hslow (now : Duration) : (clock.deadline now (schedule.budget now)).nanos <
      (clock.delayed now delay).nanos := by
    have hbudget := schedule.budget_le now
    exact clock.deadline_lt_delayed now (by omega)
  refine ⟨fun now c hc => ?_, fun now => ?_⟩
  · rw [hcall] at hc
    exact Nat.lt_of_lt_of_le (hslow now) (delayed_le_of_mem hc)
  · have hstart := clock.le_deadline now (schedule.budget now)
    rw [hcall]
    refine reply_abandoned ?_
    simp only [Nat.add_sub_cancel' hstart]
    exact hslow now

-- A front fails as many completed calls as it has failures, passes on all that are completed later
-- and nothing else, and attempts that are given up during the delay make no difference. So a poll
-- whose budgets are all shorter than the delay makes none.
theorem quota_kept [Writable α] (service : Service σ α) (clock : Clock) (delay : Duration)
    (state : Faulty (Noted σ)) :
    (∀ attempts last, Session clock delay service.noting state attempts last ↔
      ∃ failed served, Rationed clock delay state.remaining attempts failed served last.remaining ∧
        service.Answers state.inner.inner (served.map (behind clock delay)) last.inner.inner ∧
        last.inner.notes =
          state.inner.notes ++ (served.map (behind clock delay)).map Answered.note) ∧
    ∀ watch : Watch α,
      watch.config.timeout.nanos + clock.granule ≤ (clock.cut delay).nanos →
      watch.config.effectiveTick.nanos + clock.granule ≤ (clock.cut delay).nanos →
      Untouched state (watch.matching (Faulty.service clock delay service.noting) clock state) ∧
      Untouched state
        (watch.firstMatching (Faulty.service clock delay service.noting) clock state) ∧
      Untouched state (watch.deleted (Faulty.service clock delay service.noting) clock state) := by
  refine ⟨fun attempts last => ?_, fun watch htimeout htick => ⟨?_, ?_, ?_⟩⟩
  · simp only [← service.answers_noting_iff]
    exact session_iff clock delay service.noting state.inner state.remaining attempts last
  · exact (watch.matching_course _ clock state).untouched fun _ => stalls rfl htimeout htick
  · exact (watch.firstMatching_course _ clock state).untouched fun _ => stalls rfl htimeout htick
  · exact (watch.deleted_course _ clock state).untouched fun _ => stalls rfl htimeout htick

-- A front with one failure and a delay of five milliseconds before an item. One call is given up
-- after three milliseconds, one fails, one is served, and one more is given up.
theorem quota_kept_of_slow_front :
    let key := Key.inScope "toolchain" "counter"
    let item : Item := ⟨"toolchain", "counter", 3⟩
    let delay := Duration.ofMillis 5
    let store : Faulty (Noted (Shelf Item)) := ⟨⟨.ofObjects [item], []⟩, 1⟩
    let attempts : List (Attempt Item) :=
      [.abandoned .zero (.get key) (.ofMillis 3),
        .completed ⟨.ofMillis 10, .list none, .ofMillis 15, .error (injected "list")⟩,
        .completed ⟨.ofMillis 20, .get key, .ofMillis 25, .ok (.inl item)⟩,
        .abandoned (.ofMillis 30) (.list none) (.ofMillis 4)]
    let watch := Watch.awaitedItem 3 2
    let slow := Faulty.service .milliseconds delay Shelf.service.noting
    Session .milliseconds delay Shelf.service.noting store attempts
        ⟨⟨⟨[item], 1⟩, [(.ofMillis 25, .get key)]⟩, 0⟩ ∧
      watch.config.timeout.nanos + Clock.milliseconds.granule ≤
        (Clock.milliseconds.cut delay).nanos ∧
      watch.config.effectiveTick.nanos + Clock.milliseconds.granule ≤
        (Clock.milliseconds.cut delay).nanos ∧
      Untouched store (watch.matching slow .milliseconds store) ∧
      Untouched store (watch.firstMatching slow .milliseconds store) ∧
      Untouched store (watch.deleted slow .milliseconds store) := by
  intro key item delay store attempts watch slow
  obtain ⟨hsession, huntouched⟩ := quota_kept Shelf.service .milliseconds delay store
  have htimeout : watch.config.timeout.nanos + Clock.milliseconds.granule ≤
      (Clock.milliseconds.cut delay).nanos := by decide
  have htick : watch.config.effectiveTick.nanos + Clock.milliseconds.granule ≤
      (Clock.milliseconds.cut delay).nanos := by decide
  have hready : Clock.milliseconds.delayed (.ofMillis 20) delay = .ofMillis 25 := by decide
  have hrationed : Rationed .milliseconds delay 1 attempts
      [⟨.ofMillis 10, .list none, .ofMillis 15, .error (injected "list")⟩]
      [⟨.ofMillis 20, .get key, .ofMillis 25, .ok (.inl item)⟩] 0 := by
    refine ⟨by decide, rfl, rfl, ?_, rfl⟩
    simp only [List.forall_mem_singleton]
    exact ⟨by decide, rfl⟩
  refine ⟨(hsession _ _).mpr ⟨_, _, hrationed, ?_⟩, htimeout, htick,
    huntouched watch htimeout htick⟩
  simp only [List.map_cons, List.map_nil, behind, Answered.note, hready]
  exact ⟨⟨⟨.zero, .ok (.inl item), ⟨[item], 1⟩⟩, rfl, ⟨by decide, rfl⟩, rfl⟩, rfl⟩

-- A delay of more than thirty years before a poll that lasts three hundred. The delay is cut short,
-- and the first call is served.
theorem long_delay_cut_short :
    let key := Key.inScope "toolchain" "counter"
    let item : Item := ⟨"toolchain", "counter", 3⟩
    let delay := Duration.ofMillis 1000000000000000
    let store : Faulty (Noted (Shelf Item)) := ⟨⟨.ofObjects [item], []⟩, 0⟩
    let watch := Watch.awaitedItem 9460800000000 1000
    let slow := Faulty.service .milliseconds delay Shelf.service.noting
    watch.lookupKey = .ok key ∧ watch.config.InRange ∧
      watch.config.timeout.nanos + (Duration.ofMillis 1).nanos ≤ delay.nanos ∧
      watch.config.effectiveTick.nanos + (Duration.ofMillis 1).nanos ≤ delay.nanos ∧
      ∃ run, watch.matching slow .milliseconds store = .ok run ∧ run.outcome = .ok item ∧
        run.state.inner.notes = [(.ofSeconds 946080000, .get key)] := by
  intro key item delay store watch slow
  have hrange : watch.config.InRange := by decide
  have hready : Clock.milliseconds.delayed .zero delay = .ofSeconds 946080000 := by decide
  have hbudget : watch.config.schedule.budget .zero = .ofMillis 9460800000000 := by decide
  have hdeadline : Clock.milliseconds.deadline .zero (.ofMillis 9460800000000) =
      .ofMillis 9460800000000 := by decide
  have hcompletion : ((Watch.getQuery slow key).call .zero store).completion =
      some ⟨.ofSeconds 946080000, .ok item,
        ⟨⟨⟨[item], 1⟩, [(.ofSeconds 946080000, .get key)]⟩, 0⟩⟩ := by
    simp only [Watch.getQuery, slow, service, store, reply, hready]
    rfl
  have hfirst : (Watch.getQuery slow key).exchange .milliseconds watch.config.schedule .zero store =
      (⟨.zero, .ofMillis 9460800000000, .ofSeconds 946080000, .ok item⟩,
        ⟨⟨⟨[item], 1⟩, [(.ofSeconds 946080000, .get key)]⟩, 0⟩) := by
    simp only [Query.exchange, hbudget, hdeadline, hcompletion]
    rw [if_pos (by decide)]
    rfl
  have hsettled : (watch.matchingPoll slow .milliseconds key).judge
      ((watch.matchingPoll slow .milliseconds key).ask .zero store).1 none =
        .settled (.ok item) := by
    simp only [Watch.matchingPoll, Poll.ask, hfirst]
    rfl
  have hkey : watch.lookupKey = .ok key := rfl
  refine ⟨hkey, hrange, by decide, by decide, _,
    Watch.matching_eq slow .milliseconds store hkey hrange, ?_⟩
  simp only [Watch.conclude, Poll.rounds_of_settled _ hsettled]
  simp only [Watch.matchingPoll, Poll.ask, hfirst, and_self]

end Faulty

end Eventually
