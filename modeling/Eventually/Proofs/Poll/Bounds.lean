import Eventually.Proofs.Clock
import Eventually.Proofs.Poll.Trace
import Eventually.Store.Script

namespace Eventually

namespace Query

variable {query : Query σ β} {clock : Clock} {schedule : Schedule} {now : Duration}

-- No call outlasts the hard limit, as the clock counts it. A call that starts beyond the limit has
-- no budget left.
theorem Step.finish_le_hardLimit (hstep : query.Step clock schedule now state e next)
    (hnow : now.nanos ≤ (clock.reach ⟨schedule.hardLimit⟩).nanos) :
    e.finish.nanos ≤ (clock.reach ⟨schedule.hardLimit⟩).nanos := by
  refine Nat.le_trans hstep.finish_le (Nat.le_trans (clock.deadline_le ..) ?_)
  apply clock.reach_le_reach
  have hlimit := clock.le_reach ⟨schedule.hardLimit⟩
  simp only [Schedule.budget] at hlimit ⊢
  omega

end Query

namespace Poll

variable {poll : Poll σ β ρ μ} {now : Duration} {rounds : Rounds σ β ρ μ}

theorem Trace.finish_le_hardLimit (htrace : poll.Trace now state memory rounds)
    (hnow : now.nanos ≤ (poll.clock.reach ⟨poll.schedule.hardLimit⟩).nanos) :
    rounds.finish.nanos ≤ (poll.clock.reach ⟨poll.schedule.hardLimit⟩).nanos := by
  induction htrace with
  | settled hstep => exact hstep.finish_le_hardLimit hnow
  | expired hstep => exact hstep.finish_le_hardLimit hnow
  | again hstep _ hleft _ ih =>
      refine ih (Nat.le_trans (poll.clock.wake_le ..) (poll.clock.reach_mono ?_))
      simp only [Schedule.hardLimit]
      omega

-- All calls but the last two start before the timeout, and each starts a tick after the one before
-- it or later.
theorem Trace.tick_mul_lt_timeout (htrace : poll.Trace now state memory rounds)
    (hcut : poll.clock.cut poll.schedule.tick = poll.schedule.tick) (count : Nat)
    (hcount : rounds.exchanges.length = count + 2) :
    now.nanos + count * poll.schedule.tick.nanos < poll.schedule.timeout.nanos := by
  induction htrace generalizing count with
  | settled => simp at hcount
  | expired => simp at hcount
  | @again _ _ e _ _ _ rest hstep _ hleft hrest ih =>
      have hstart := hstep.le_finish
      have hwake := poll.clock.add_le_wake e.finish hcut
      simp only [Rounds.before, List.length_cons] at hcount
      cases count with
      | zero => omega
      | succ count =>
          have hlater := ih count (by omega)
          rw [Nat.succ_mul]
          omega

theorem Trace.length_le (htrace : poll.Trace .zero state memory rounds)
    (hcut : poll.clock.cut poll.schedule.tick = poll.schedule.tick) :
    rounds.exchanges.length ≤
      poll.schedule.timeout.nanos ⌈/⌉ poll.schedule.tick.nanos + 1 := by
  by_cases hshort : rounds.exchanges.length ≤ 1
  · omega
  · obtain ⟨count, hcount⟩ := Nat.exists_eq_add_of_le' (Nat.not_le.mp hshort)
    have hlt := htrace.tick_mul_lt_timeout hcut count hcount
    have hceil := (ceilDiv_le_iff_le_mul poll.schedule.tick_pos).mp
      (Nat.le_refl (poll.schedule.timeout.nanos ⌈/⌉ poll.schedule.tick.nanos))
    have hmul : count * poll.schedule.tick.nanos <
        poll.schedule.timeout.nanos ⌈/⌉ poll.schedule.tick.nanos * poll.schedule.tick.nanos := by
      rw [Nat.mul_comm (_ ⌈/⌉ _)]
      simp only [Duration.zero] at hlt
      omega
    have := Nat.lt_of_mul_lt_mul_right hmul
    omega

end Poll

-- A run that ends in time, that does not report a timeout too early, and that makes few calls.
structure Run.Bounded (run : Run σ β ρ) (clock : Clock) (schedule : Schedule) (calls : Nat) :
    Prop where
  finish_le : run.finish.nanos ≤ (clock.reach ⟨schedule.hardLimit⟩).nanos
  timeout_le : ∀ report, run.outcome = .error (.timeout report) →
    schedule.timeout.nanos ≤ report.elapsed.nanos ∧ report.elapsed = run.finish
  length_le : run.exchanges.length ≤ calls

theorem Run.refused_bounded (clock : Clock) (schedule : Schedule) (calls : Nat) (state : σ)
    (e : IdentityError) :
    (Run.refused state (.identity e) : Run σ β ρ).Bounded clock schedule calls where
  finish_le := Nat.zero_le _
  timeout_le := nofun
  length_le := Nat.zero_le _

namespace Watch

theorem Concludes.bounded [Writable α] {watch : Watch α} {poll : Poll σ β α (Option (Candidate α))}
    (hrun : watch.Concludes awaited poll state run)
    (hcut : poll.clock.cut poll.schedule.tick = poll.schedule.tick)
    (hjudge : ∀ e memory report, poll.judge e memory ≠ .settled (.error (.timeout report))) :
    run.Bounded poll.clock poll.schedule
      (poll.schedule.timeout.nanos ⌈/⌉ poll.schedule.tick.nanos + 2) := by
  have hzero : Duration.zero.nanos ≤ (poll.clock.reach ⟨poll.schedule.hardLimit⟩).nanos :=
    Nat.zero_le _
  cases hrun with
  | early htrace hverdict =>
      refine ⟨htrace.finish_le_hardLimit hzero, ?_, Nat.le_succ_of_le (htrace.length_le hcut)⟩
      intro report houtcome
      exact absurd houtcome (htrace.result_ne_timeout hjudge hverdict report)
  | late htrace hverdict hstep hsettled =>
      have hfinish := htrace.finish_le_hardLimit hzero
      refine ⟨hstep.finish_le_hardLimit hfinish, ?_, ?_⟩
      · intro report houtcome
        cases houtcome
        exact absurd hsettled (hjudge _ _ report)
      · simpa using htrace.length_le hcut
  | timedOut htrace hverdict hstep =>
      have hfinish := htrace.finish_le_hardLimit hzero
      refine ⟨hstep.finish_le_hardLimit hfinish, ?_, ?_⟩
      · intro report houtcome
        cases houtcome
        exact ⟨Nat.le_trans (htrace.timeout_le hverdict) hstep.le_finish, rfl⟩
      · simpa using htrace.length_le hcut

theorem Ceases.bounded {key : Key} {poll : Poll σ α Unit Unit}
    (hrun : Ceases awaited key poll state run)
    (hcut : poll.clock.cut poll.schedule.tick = poll.schedule.tick)
    (hjudge : ∀ e memory report, poll.judge e memory ≠ .settled (.error (.timeout report))) :
    run.Bounded poll.clock poll.schedule
      (poll.schedule.timeout.nanos ⌈/⌉ poll.schedule.tick.nanos + 1) := by
  have hzero : Duration.zero.nanos ≤ (poll.clock.reach ⟨poll.schedule.hardLimit⟩).nanos :=
    Nat.zero_le _
  cases hrun with
  | early htrace hverdict =>
      refine ⟨htrace.finish_le_hardLimit hzero, ?_, htrace.length_le hcut⟩
      intro report houtcome
      exact absurd houtcome (htrace.result_ne_timeout hjudge hverdict report)
  | timedOut htrace hverdict =>
      refine ⟨htrace.finish_le_hardLimit hzero, ?_, htrace.length_le hcut⟩
      intro report houtcome
      cases houtcome
      exact ⟨htrace.timeout_le hverdict, rfl⟩

-- No answer is judged to be a timeout.
theorem judgeObject_ne_timeout (watch : Watch α) (e : Exchange α) (memory : Option (Candidate α))
    (reported : TimeoutReport) :
    watch.judgeObject e memory ≠ .settled (.error (.timeout reported)) := by
  simp only [judgeObject]
  split
  · nofun
  · split
    · nofun
    · split <;> nofun

theorem judgeList_ne_timeout (watch : Watch α) (e : Exchange (List α))
    (memory : Option (Candidate α)) (reported : TimeoutReport) :
    watch.judgeList e memory ≠ .settled (.error (.timeout reported)) := by
  simp only [judgeList]
  split
  · nofun
  · split <;> nofun

theorem judgeAbsence_ne_timeout (awaited : String) (e : Exchange α) (memory : Unit)
    (reported : TimeoutReport) :
    judgeAbsence awaited e memory ≠ .settled (.error (.timeout reported)) := by
  simp only [judgeAbsence]
  split <;> nofun

-- However slow a store is and whatever it answers, each way of waiting comes to its end, at most a
-- tick after the timeout as far as the clock can tell. That a sleep lasts as long as it should is
-- needed only for the number of calls.
theorem runs_bounded [Writable α] (watch : Watch α) (service : Service σ α) (clock : Clock)
    (state : σ) (hrange : watch.config.InRange)
    (hcut : clock.cut watch.config.effectiveTick = watch.config.effectiveTick) :
    let attempts := watch.config.timeout.nanos ⌈/⌉ watch.config.effectiveTick.nanos
    (∃ run, watch.matching service clock state = .ok run ∧
      run.Bounded clock watch.config.schedule (attempts + 2)) ∧
    (∃ run, watch.firstMatching service clock state = .ok run ∧
      run.Bounded clock watch.config.schedule (attempts + 2)) ∧
    (∃ run, watch.deleted service clock state = .ok run ∧
      run.Bounded clock watch.config.schedule (attempts + 1)) := by
  refine ⟨?_, ?_, ?_⟩
  · cases hkey : watch.lookupKey with
    | error e => exact ⟨_, matching_refused service clock state hkey, Run.refused_bounded ..⟩
    | ok key =>
        obtain ⟨run, hrun, hconcludes⟩ := matching_concludes service clock state hkey hrange
        exact ⟨run, hrun, hconcludes.bounded hcut watch.judgeObject_ne_timeout⟩
  · cases hscope : watch.lookupScope with
    | error e =>
        exact ⟨_, firstMatching_refused service clock state hscope, Run.refused_bounded ..⟩
    | ok scope =>
        obtain ⟨run, hrun, hconcludes⟩ := firstMatching_concludes service clock state hscope hrange
        exact ⟨run, hrun, hconcludes.bounded hcut watch.judgeList_ne_timeout⟩
  · cases hkey : watch.lookupKey with
    | error e => exact ⟨_, deleted_refused service clock state hkey, Run.refused_bounded ..⟩
    | ok key =>
        obtain ⟨run, hrun, hceases⟩ := deleted_ceases service clock state hkey hrange
        exact ⟨run, hrun, hceases.bounded hcut (judgeAbsence_ne_timeout _)⟩

-- A store that answers only sometimes, and then late.
theorem runs_bounded_of_slow_script :
    let watch := awaitedItem 100 30
    let service := Script.service .milliseconds
      [⟨.ofMillis 45, .notFound none⟩, ⟨.zero, .silence⟩, ⟨.ofMillis 7, .backend "unreachable"⟩]
    watch.config.InRange ∧
      Clock.milliseconds.cut watch.config.effectiveTick = watch.config.effectiveTick ∧
      (∃ run, watch.matching service .milliseconds 0 = .ok run ∧
        run.Bounded .milliseconds watch.config.schedule (4 + 2)) ∧
      (∃ run, watch.firstMatching service .milliseconds 0 = .ok run ∧
        run.Bounded .milliseconds watch.config.schedule (4 + 2)) ∧
      (∃ run, watch.deleted service .milliseconds 0 = .ok run ∧
        run.Bounded .milliseconds watch.config.schedule (4 + 1)) :=
  ⟨by decide, rfl, runs_bounded _ _ _ _ (by decide) rfl⟩

end Watch

end Eventually
