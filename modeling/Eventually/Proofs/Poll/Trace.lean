import Eventually.Poll.Watch
import Eventually.Requirement.Item

namespace Eventually

namespace PollConfig

-- Timeout and effective tick together are a duration again.
def InRange (config : PollConfig) : Prop :=
  config.timeout.nanos + config.effectiveTick.nanos < Duration.limit

instance (config : PollConfig) : Decidable config.InRange :=
  inferInstanceAs (Decidable (_ < _))

def schedule (config : PollConfig) : Schedule :=
  ⟨config.timeout, config.effectiveTick, config.effectiveTick_pos⟩

theorem schedule?_eq_some {config : PollConfig} (hrange : config.InRange) :
    config.schedule? = some config.schedule := by
  have hsum : config.timeout.add? config.effectiveTick =
      some ⟨config.timeout.nanos + config.effectiveTick.nanos⟩ := if_pos hrange
  rw [schedule?, hsum]
  rfl

theorem schedule?_eq_none {config : PollConfig} (hrange : ¬config.InRange) :
    config.schedule? = none := by
  have hsum : config.timeout.add? config.effectiveTick = none := if_neg hrange
  rw [schedule?, hsum]
  rfl

end PollConfig

namespace Query

-- One call as store and clock make it. Either the answer comes in time, or the call is given up at
-- the deadline and its error says so.
inductive Step (query : Query σ β) (clock : Clock) (schedule : Schedule) (now : Duration)
    (state : σ) : Exchange β → σ → Prop
  | answered (c : Completion σ β) (hc : c ∈ (query.call now state).completion)
      (hintime : now.nanos + c.latency.nanos ≤
        (clock.deadline now (schedule.budget now)).nanos) :
      Step query clock schedule now state
        ⟨now, schedule.budget now, ⟨now.nanos + c.latency.nanos⟩, c.answer⟩ c.state
  | elapsed
      (hlate : ∀ c ∈ (query.call now state).completion,
        (clock.deadline now (schedule.budget now)).nanos < now.nanos + c.latency.nanos) :
      Step query clock schedule now state
        ⟨now, schedule.budget now, clock.deadline now (schedule.budget now),
          .error (query.late (schedule.budget now))⟩
        ((query.call now state).abandoned
          ⟨(clock.deadline now (schedule.budget now)).nanos - now.nanos⟩)

theorem exchange_step (query : Query σ β) (clock : Clock) (schedule : Schedule) (now : Duration)
    (state : σ) :
    query.Step clock schedule now state (query.exchange clock schedule now state).1
      (query.exchange clock schedule now state).2 := by
  simp only [exchange]
  split
  next hnone =>
    exact .elapsed (by simp [hnone])
  next c hsome =>
    split
    next hintime => exact .answered c hsome hintime
    next hlate =>
      refine .elapsed fun other hother => ?_
      rw [hsome] at hother
      cases hother
      omega

theorem Step.start_eq {query : Query σ β} (hstep : query.Step clock schedule now state e next) :
    e.start = now := by
  cases hstep <;> rfl

theorem Step.le_finish {query : Query σ β} (hstep : query.Step clock schedule now state e next) :
    now.nanos ≤ e.finish.nanos := by
  cases hstep with
  | answered => exact Nat.le_add_right ..
  | elapsed => exact clock.le_deadline ..

theorem Step.finish_le {query : Query σ β} (hstep : query.Step clock schedule now state e next) :
    e.finish.nanos ≤ (clock.deadline now (schedule.budget now)).nanos := by
  cases hstep with
  | answered _ _ hintime => exact hintime
  | elapsed => exact Nat.le_refl _

-- Calls one after the other, each on the state that the call before it left.
inductive Calls (query : Query σ β) (clock : Clock) (schedule : Schedule) :
    Duration → σ → List (Exchange β) → σ → Prop
  | nil : Calls query clock schedule now state [] state
  | cons (hstart : now.nanos ≤ start.nanos) (hstep : query.Step clock schedule start state e next)
      (hrest : Calls query clock schedule e.finish next rest last) :
      Calls query clock schedule now state (e :: rest) last

theorem Calls.mono {query : Query σ β} (hcalls : query.Calls clock schedule later state es last)
    (hle : now.nanos ≤ later.nanos) : query.Calls clock schedule now state es last := by
  cases hcalls with
  | nil => exact .nil
  | cons hstart hstep hrest => exact .cons (Nat.le_trans hle hstart) hstep hrest

theorem Calls.concat {query : Query σ β} (hcalls : query.Calls clock schedule now state es middle)
    (hstart : now.nanos ≤ start.nanos) (hfinish : ∀ e ∈ es, e.finish.nanos ≤ start.nanos)
    (hstep : query.Step clock schedule start middle e next) :
    query.Calls clock schedule now state (es ++ [e]) next := by
  induction hcalls with
  | nil => exact .cons hstart hstep .nil
  | cons hbefore hfirst _ ih =>
      obtain ⟨hhead, hrest⟩ := List.forall_mem_cons.mp hfinish
      exact .cons hbefore hfirst (ih hhead hrest hstep)

-- What holds of the error of a late call and of every answer of the store holds of all answers.
theorem Calls.forall_answers {query : Query σ β}
    (hcalls : query.Calls clock schedule now state es last) (good : Except StoreError β → Prop)
    (hlate : ∀ budget, good (.error (query.late budget)))
    (hanswers : ∀ now state, ∀ c ∈ (query.call now state).completion, good c.answer) :
    ∀ e ∈ es, good e.answer := by
  induction hcalls with
  | nil => exact List.forall_mem_nil _
  | cons _ hstep _ ih =>
      refine List.forall_mem_cons.mpr ⟨?_, ih⟩
      cases hstep with
      | answered c hc => exact hanswers _ _ c hc
      | elapsed => exact hlate _

end Query

namespace Poll

-- The rounds of a poll without the measure that ends them. After each call there are three ways to
-- go on: the answer settles the poll, its time is over, or it calls again a tick later.
inductive Trace (poll : Poll σ β ρ μ) : Duration → σ → μ → Rounds σ β ρ μ → Prop
  | settled (hstep : poll.query.Step poll.clock poll.schedule now state e next)
      (hjudge : poll.judge e memory = .settled result) :
      Trace poll now state memory ⟨[e], e.finish, next, .settled result⟩
  | expired (hstep : poll.query.Step poll.clock poll.schedule now state e next)
      (hjudge : poll.judge e memory = .undecided kept)
      (hover : poll.schedule.timeout.nanos ≤ e.finish.nanos) :
      Trace poll now state memory ⟨[e], e.finish, next, .undecided kept⟩
  | again (hstep : poll.query.Step poll.clock poll.schedule now state e next)
      (hjudge : poll.judge e memory = .undecided kept)
      (hleft : e.finish.nanos < poll.schedule.timeout.nanos)
      (hrest : Trace poll (poll.clock.wake e.finish poll.schedule.tick) next kept rest) :
      Trace poll now state memory (rest.before e)

theorem rounds_of_settled (poll : Poll σ β ρ μ) {now : Duration} {state : σ} {memory : μ}
    (hjudge : poll.judge (poll.ask now state).1 memory = .settled result) :
    poll.rounds now state memory =
      ⟨[(poll.ask now state).1], (poll.ask now state).1.finish, (poll.ask now state).2,
        .settled result⟩ := by
  rw [rounds, hjudge]

theorem rounds_of_left (poll : Poll σ β ρ μ) {now : Duration} {state : σ} {memory : μ}
    (hjudge : poll.judge (poll.ask now state).1 memory = .undecided kept)
    (hleft : (poll.ask now state).1.finish.nanos < poll.schedule.timeout.nanos) :
    poll.rounds now state memory =
      (poll.rounds (poll.clock.wake (poll.ask now state).1.finish poll.schedule.tick)
        (poll.ask now state).2 kept).before (poll.ask now state).1 := by
  rw [rounds, hjudge]
  exact dif_pos hleft

theorem rounds_of_over (poll : Poll σ β ρ μ) {now : Duration} {state : σ} {memory : μ}
    (hjudge : poll.judge (poll.ask now state).1 memory = .undecided kept)
    (hover : ¬(poll.ask now state).1.finish.nanos < poll.schedule.timeout.nanos) :
    poll.rounds now state memory =
      ⟨[(poll.ask now state).1], (poll.ask now state).1.finish, (poll.ask now state).2,
        .undecided kept⟩ := by
  rw [rounds, hjudge]
  exact dif_neg hover

theorem rounds_trace (poll : Poll σ β ρ μ) (now : Duration) (state : σ) (memory : μ) :
    poll.Trace now state memory (poll.rounds now state memory) := by
  fun_induction poll.rounds now state memory with
  | case1 now state memory asked result hjudge =>
      exact .settled (poll.query.exchange_step ..) hjudge
  | case2 now state memory asked kept hjudge hleft ih =>
      exact .again (poll.query.exchange_step ..) hjudge hleft ih
  | case3 now state memory asked kept hjudge hover =>
      exact .expired (poll.query.exchange_step ..) hjudge (Nat.not_lt.mp hover)

variable {poll : Poll σ β ρ μ} {now : Duration} {state : σ} {memory : μ} {rounds : Rounds σ β ρ μ}

theorem Trace.exists_last (htrace : poll.Trace now state memory rounds) :
    ∃ before last, rounds.exchanges = before ++ [last] ∧ rounds.finish = last.finish := by
  induction htrace with
  | settled => exact ⟨[], _, rfl, rfl⟩
  | expired => exact ⟨[], _, rfl, rfl⟩
  | @again _ _ e _ _ _ _ _ _ _ _ ih =>
      obtain ⟨before, last, hexchanges, hfinish⟩ := ih
      exact ⟨e :: before, last, congrArg (e :: ·) hexchanges, hfinish⟩

theorem Trace.le_finish (htrace : poll.Trace now state memory rounds) :
    now.nanos ≤ rounds.finish.nanos ∧ ∀ e ∈ rounds.exchanges,
      e.finish.nanos ≤ rounds.finish.nanos := by
  induction htrace with
  | settled hstep => exact ⟨hstep.le_finish, by simp⟩
  | expired hstep => exact ⟨hstep.le_finish, by simp⟩
  | @again _ _ e _ _ _ _ hstep _ _ _ ih =>
      obtain ⟨hwake, hrest⟩ := ih
      have hstart := hstep.le_finish
      have hsleep := poll.clock.le_wake e.finish poll.schedule.tick
      refine ⟨by simp only [Rounds.before]; omega, ?_⟩
      simp only [Rounds.before, List.forall_mem_cons]
      exact ⟨by omega, hrest⟩

theorem Trace.calls (htrace : poll.Trace now state memory rounds) :
    poll.query.Calls poll.clock poll.schedule now state rounds.exchanges rounds.state := by
  induction htrace with
  | settled hstep => exact .cons (Nat.le_refl _) hstep .nil
  | expired hstep => exact .cons (Nat.le_refl _) hstep .nil
  | again hstep _ _ _ ih => exact .cons (Nat.le_refl _) hstep (ih.mono (poll.clock.le_wake ..))

-- Time can only run out on a poll whose last answer came at the timeout or later.
theorem Trace.timeout_le (htrace : poll.Trace now state memory rounds)
    (hverdict : rounds.verdict = .undecided kept) :
    poll.schedule.timeout.nanos ≤ rounds.finish.nanos := by
  induction htrace with
  | settled => cases hverdict
  | expired _ _ hover => exact hover
  | again _ _ _ _ ih => exact ih hverdict

-- The result of the rounds is what some answer was judged to be.
theorem Trace.result_ne_timeout (htrace : poll.Trace now state memory rounds)
    (hjudge : ∀ e seen report, poll.judge e seen ≠ .settled (.error (.timeout report)))
    (hverdict : rounds.verdict = .settled result) (report : TimeoutReport) :
    result ≠ .error (.timeout report) := by
  intro hresult
  subst hresult
  induction htrace with
  | settled _ hsettled =>
      cases hverdict
      exact hjudge _ _ report hsettled
  | expired => cases hverdict
  | again _ _ _ _ ih => exact ih hverdict

end Poll

namespace Watch

def matchingPoll (watch : Watch α) (service : Service σ α) (clock : Clock) (key : Key) :
    Poll σ α α (Option (Candidate α)) :=
  ⟨getQuery service key, watch.judgeObject, clock, watch.config.schedule⟩

def firstMatchingPoll (watch : Watch α) (service : Service σ α) (clock : Clock)
    (scope : Option String) : Poll σ (List α) α (Option (Candidate α)) :=
  ⟨listQuery service scope, watch.judgeList, clock, watch.config.schedule⟩

def deletedPoll (watch : Watch α) (service : Service σ α) (clock : Clock) (key : Key) :
    Poll σ α Unit Unit :=
  ⟨getQuery service key, judgeAbsence (watch.awaitedDeletion key), clock, watch.config.schedule⟩

-- The run of a poll that makes one more call when its rounds leave it undecided.
inductive Concludes [Writable α] (watch : Watch α) (awaited : String)
    (poll : Poll σ β α (Option (Candidate α))) (state : σ) : Run σ β α → Prop
  | early (htrace : poll.Trace .zero state none rounds)
      (hverdict : rounds.verdict = .settled outcome) :
      Concludes watch awaited poll state
        ⟨rounds.exchanges, rounds.finish, rounds.state, outcome⟩
  | late (htrace : poll.Trace .zero state none rounds)
      (hverdict : rounds.verdict = .undecided memory)
      (hstep : poll.query.Step poll.clock poll.schedule rounds.finish rounds.state last next)
      (hjudge : poll.judge last memory = .settled outcome) :
      Concludes watch awaited poll state
        ⟨rounds.exchanges ++ [last], last.finish, next, outcome⟩
  | timedOut (htrace : poll.Trace .zero state none rounds)
      (hverdict : rounds.verdict = .undecided memory)
      (hstep : poll.query.Step poll.clock poll.schedule rounds.finish rounds.state last next)
      (hjudge : poll.judge last memory = .undecided best) :
      Concludes watch awaited poll state
        ⟨rounds.exchanges ++ [last], last.finish, next,
          .error (.timeout (watch.report awaited last best))⟩

theorem conclude_concludes [Writable α] (watch : Watch α) (awaited : String)
    (poll : Poll σ β α (Option (Candidate α))) (state : σ) :
    watch.Concludes awaited poll state (watch.conclude awaited poll state) := by
  have htrace := poll.rounds_trace .zero state none
  simp only [conclude]
  split
  next outcome hverdict => exact .early htrace hverdict
  next memory hverdict =>
    split
    next outcome hjudge => exact .late htrace hverdict (poll.query.exchange_step ..) hjudge
    next best hjudge => exact .timedOut htrace hverdict (poll.query.exchange_step ..) hjudge

-- The run of a poll that makes no call after its rounds.
inductive Ceases (awaited : String) (key : Key) (poll : Poll σ α Unit Unit) (state : σ) :
    Run σ α Unit → Prop
  | early (htrace : poll.Trace .zero state () rounds)
      (hverdict : rounds.verdict = .settled outcome) :
      Ceases awaited key poll state ⟨rounds.exchanges, rounds.finish, rounds.state, outcome⟩
  | timedOut (htrace : poll.Trace .zero state () rounds)
      (hverdict : rounds.verdict = .undecided ()) :
      Ceases awaited key poll state
        ⟨rounds.exchanges, rounds.finish, rounds.state,
          .error (.timeout (stillThere awaited key rounds.finish))⟩

section Runs

variable [Writable α] {watch : Watch α} (service : Service σ α) (clock : Clock) (state : σ)

theorem matching_refused (hkey : watch.lookupKey = .error e) :
    watch.matching service clock state = .ok (.refused state (.identity e)) := by
  simp only [matching, hkey]

theorem matching_eq {key : Key} (hkey : watch.lookupKey = .ok key)
    (hrange : watch.config.InRange) :
    watch.matching service clock state =
      .ok (watch.conclude (watch.awaitedMatch key) (watch.matchingPoll service clock key)
        state) := by
  simp only [matching, hkey, PollConfig.schedule?_eq_some hrange, matchingPoll]

theorem matching_concludes {key : Key} (hkey : watch.lookupKey = .ok key)
    (hrange : watch.config.InRange) :
    ∃ run, watch.matching service clock state = .ok run ∧
      watch.Concludes (watch.awaitedMatch key) (watch.matchingPoll service clock key) state
        run :=
  ⟨_, matching_eq service clock state hkey hrange, watch.conclude_concludes ..⟩

theorem firstMatching_refused (hscope : watch.lookupScope = .error e) :
    watch.firstMatching service clock state = .ok (.refused state (.identity e)) := by
  simp only [firstMatching, hscope]

theorem firstMatching_eq {scope : Option String} (hscope : watch.lookupScope = .ok scope)
    (hrange : watch.config.InRange) :
    watch.firstMatching service clock state =
      .ok (watch.conclude (watch.awaitedAny scope) (watch.firstMatchingPoll service clock scope)
        state) := by
  simp only [firstMatching, hscope, PollConfig.schedule?_eq_some hrange, firstMatchingPoll]

theorem firstMatching_concludes {scope : Option String}
    (hscope : watch.lookupScope = .ok scope) (hrange : watch.config.InRange) :
    ∃ run, watch.firstMatching service clock state = .ok run ∧
      watch.Concludes (watch.awaitedAny scope) (watch.firstMatchingPoll service clock scope) state
        run :=
  ⟨_, firstMatching_eq service clock state hscope hrange, watch.conclude_concludes ..⟩

omit [Writable α] in
theorem deleted_refused (hkey : watch.lookupKey = .error e) :
    watch.deleted service clock state = .ok (.refused state (.identity e)) := by
  simp only [deleted, hkey]

omit [Writable α] in
theorem deleted_ceases {key : Key} (hkey : watch.lookupKey = .ok key)
    (hrange : watch.config.InRange) :
    ∃ run, watch.deleted service clock state = .ok run ∧
      Ceases (watch.awaitedDeletion key) key (watch.deletedPoll service clock key) state run := by
  have htrace := (watch.deletedPoll service clock key).rounds_trace .zero state ()
  simp only [deleted, hkey, PollConfig.schedule?_eq_some hrange]
  refine ⟨_, rfl, ?_⟩
  split
  next outcome hverdict => exact .early htrace hverdict
  next hverdict => exact .timedOut htrace hverdict

end Runs

-- The wait for an item under a fixed key to hold a certain number, with times in milliseconds.
def awaitedItem (timeout tick : Nat) : Watch Item where
  list := .cons (.leaf (ItemRequirement.value 3).leaf) .nil
  config := ⟨.ofMillis timeout, .ofMillis tick⟩
  key := some (.inScope "toolchain" "counter")
  kind := "Item"

end Watch

end Eventually
