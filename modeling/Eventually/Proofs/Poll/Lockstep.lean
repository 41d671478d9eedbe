import Eventually.Proofs.Poll.History
import Eventually.Proofs.Store.Faulty

namespace Eventually

namespace Query

-- Two ways of calling a store. At the same time both are answered at once, with answers that agree,
-- and go on from states that stand for one another.
structure InStep (query : Query σ β) (other : Query τ γ)
    (agree : Except StoreError β → Except StoreError γ → Prop)
    (alike : Duration → σ → τ → Prop) : Prop where
  answers : ∀ {now state twin}, alike now state twin → ∃ answer next reply after,
    (query.call now state).completion = some ⟨.zero, answer, next⟩ ∧
      (other.call now twin).completion = some ⟨.zero, reply, after⟩ ∧
      agree answer reply ∧ alike now next after
  waits : ∀ {now later state twin}, alike now state twin → now.nanos ≤ later.nanos →
    alike later state twin

theorem exchange_of_atOnce {query : Query σ β} (clock : Clock) (schedule : Schedule)
    (hcompletion : (query.call now state).completion = some ⟨.zero, answer, next⟩) :
    query.exchange clock schedule now state = (⟨now, schedule.budget now, now, answer⟩, next) := by
  obtain ⟨hexchange, hstate⟩ := (query.exchange_step clock schedule now state).of_atOnce hcompletion
  exact Prod.ext hexchange hstate

-- Both see the same history.
theorem Follows.inStep {query : Query σ β} {other : Query τ γ}
    {truth : Duration → Except StoreError β} {counterpart : Duration → Except StoreError γ}
    {agree : Except StoreError β → Except StoreError γ → Prop}
    (hquery : query.Follows truth (fun _ _ => False) start)
    (hother : other.Follows counterpart (fun _ _ => False) begun)
    (hagree : ∀ now, agree (truth now) (counterpart now)) :
    query.InStep other agree fun now state twin =>
      query.Reaches start now state ∧ other.Reaches begun now twin where
  answers := by
    rintro now state twin ⟨hstate, htwin⟩
    obtain ⟨answer, next, hcompletion, htells⟩ := hquery now state hstate
    obtain ⟨reply, after, hcounterpart, hreplies⟩ := hother now twin htwin
    have hanswer : answer = truth now := htells.resolve_right fun ⟨_, _, hfault⟩ => hfault
    have hreply : reply = counterpart now := hreplies.resolve_right fun ⟨_, _, hfault⟩ => hfault
    refine ⟨answer, next, reply, after, hcompletion, hcounterpart, ?_, ?_, ?_⟩
    · rw [hanswer, hreply]
      exact hagree now
    · exact hstate.call _ hcompletion
    · exact htwin.call _ hcounterpart
  waits halike hle := ⟨halike.1.wait hle, halike.2.wait hle⟩

end Query

-- Behind a front the two ways of calling use up failures alike.
theorem Faulty.front_inStep {query : Query σ β} {other : Query τ γ}
    {agree : Except StoreError β → Except StoreError γ → Prop} {alike : Duration → σ → τ → Prop}
    (hinStep : query.InStep other agree alike) (clock : Clock) (operation counterpart : String)
    (hfailures : ∀ e f, agree (.error e) (.error f)) :
    (front clock operation query).InStep (front clock counterpart other) agree
      fun now state twin => state.remaining = twin.remaining ∧ alike now state.inner twin.inner where
  answers := by
    rintro now ⟨state, remaining⟩ ⟨twin, _⟩ ⟨rfl, halike⟩
    cases remaining with
    | succ remaining =>
        exact ⟨_, _, _, _, front_call_succ now state remaining, front_call_succ now twin remaining,
          hfailures _ _, rfl, halike⟩
    | zero =>
        obtain ⟨answer, next, reply, after, hcompletion, hother, hagree, hnext⟩ :=
          hinStep.answers halike
        refine ⟨answer, ⟨next, 0⟩, reply, ⟨after, 0⟩, ?_, ?_, hagree, rfl, hnext⟩
        · rw [front_call_zero, hcompletion]
          rfl
        · rw [front_call_zero, hother]
          rfl
  waits halike hle := ⟨halike.1, hinStep.waits halike.2 hle⟩

-- Two polls come to the same object, or neither comes to anything.
inductive Verdict.InStep : Verdict ρ μ → Verdict ρ ν → Prop
  | found (obj : ρ) : InStep (.settled (.ok obj)) (.settled (.ok obj))
  | undecided (memory : μ) (counterpart : ν) : InStep (.undecided memory) (.undecided counterpart)

theorem Verdict.InStep.of_settled {verdict : Verdict ρ ν}
    (hinStep : InStep (.settled result : Verdict ρ μ) verdict) :
    ∃ obj, result = .ok obj ∧ verdict = .settled (.ok obj) := by
  cases hinStep with
  | found obj => exact ⟨obj, rfl, rfl⟩

theorem Verdict.InStep.of_undecided {memory : μ} {verdict : Verdict ρ ν}
    (hinStep : InStep (.undecided memory : Verdict ρ μ) verdict) :
    ∃ counterpart, verdict = .undecided counterpart := by
  cases hinStep with
  | undecided _ counterpart => exact ⟨counterpart, rfl⟩

structure Rounds.InStep (alike : Duration → σ → τ → Prop) (rounds : Rounds σ β ρ μ)
    (other : Rounds τ γ ρ ν) : Prop where
  finish_eq : other.finish = rounds.finish
  alike : alike rounds.finish rounds.state other.state
  verdict : rounds.verdict.InStep other.verdict

namespace Poll

-- Two polls that keep the same time and make the same of answers that agree.
structure InStep (poll : Poll σ β ρ μ) (other : Poll τ γ ρ ν)
    (agree : Except StoreError β → Except StoreError γ → Prop)
    (alike : Duration → σ → τ → Prop) : Prop where
  query : poll.query.InStep other.query agree alike
  judge : ∀ (e : Exchange β) (f : Exchange γ), agree e.answer f.answer →
    ∀ memory counterpart, (poll.judge e memory).InStep (other.judge f counterpart)
  clock_eq : other.clock = poll.clock
  schedule_eq : other.schedule = poll.schedule

variable {poll : Poll σ β ρ μ} {other : Poll τ γ ρ ν}
  {agree : Except StoreError β → Except StoreError γ → Prop} {alike : Duration → σ → τ → Prop}

theorem InStep.ask (hinStep : poll.InStep other agree alike) (halike : alike now state twin) :
    (poll.ask now state).1.finish = now ∧ (other.ask now twin).1.finish = now ∧
      (∀ memory counterpart, (poll.judge (poll.ask now state).1 memory).InStep
        (other.judge (other.ask now twin).1 counterpart)) ∧
      alike now (poll.ask now state).2 (other.ask now twin).2 := by
  obtain ⟨answer, next, reply, after, hcompletion, hother, hagree, hnext⟩ :=
    hinStep.query.answers halike
  rw [Poll.ask, Poll.ask, Query.exchange_of_atOnce _ _ hcompletion,
    Query.exchange_of_atOnce _ _ hother]
  exact ⟨rfl, rfl, hinStep.judge _ _ hagree, hnext⟩

theorem InStep.rounds (hinStep : poll.InStep other agree alike) (now : Duration) (state : σ)
    (twin : τ) (memory : μ) (counterpart : ν) (halike : alike now state twin) :
    (poll.rounds now state memory).InStep alike (other.rounds now twin counterpart) := by
  fun_induction poll.rounds now state memory generalizing twin counterpart with
  | case1 now state memory asked result hsettled =>
      obtain ⟨hfinish, htwin, hjudge, hnext⟩ := hinStep.ask halike
      have hverdict := hjudge memory counterpart
      rw [hsettled] at hverdict
      obtain ⟨obj, rfl, hother⟩ := hverdict.of_settled
      rw [other.rounds_of_settled hother]
      exact ⟨htwin.trans hfinish.symm, hfinish.symm ▸ hnext, .found obj⟩
  | case2 now state memory asked kept hundecided hleft ih =>
      obtain ⟨hfinish, htwin, hjudge, hnext⟩ := hinStep.ask halike
      have hverdict := hjudge memory counterpart
      rw [hundecided] at hverdict
      obtain ⟨remembered, hother⟩ := hverdict.of_undecided
      have hsame : (other.ask now twin).1.finish = asked.1.finish := htwin.trans hfinish.symm
      have hwake := poll.clock.le_wake asked.1.finish poll.schedule.tick
      have hrest := ih (other.ask now twin).2 remembered
        (hinStep.query.waits hnext (hfinish ▸ hwake))
      rw [← hsame, ← hinStep.schedule_eq] at hleft
      rw [other.rounds_of_left hother hleft, hsame, hinStep.clock_eq, hinStep.schedule_eq]
      exact ⟨hrest.finish_eq, hrest.alike, hrest.verdict⟩
  | case3 now state memory asked kept hundecided hover =>
      obtain ⟨hfinish, htwin, hjudge, hnext⟩ := hinStep.ask halike
      have hverdict := hjudge memory counterpart
      rw [hundecided] at hverdict
      obtain ⟨remembered, hother⟩ := hverdict.of_undecided
      have hsame : (other.ask now twin).1.finish = asked.1.finish := htwin.trans hfinish.symm
      rw [← hsame, ← hinStep.schedule_eq] at hover
      rw [other.rounds_of_over hother hover]
      exact ⟨hsame, hfinish.symm ▸ hnext, .undecided kept remembered⟩

end Poll

-- Two runs that find the same object at the same time, or that both run out of time then.
structure Run.InStep (run : Run σ β ρ) (other : Run τ γ ρ) : Prop where
  finish_eq : other.finish = run.finish
  ok_iff : ∀ obj, run.outcome = .ok obj ↔ other.outcome = .ok obj
  timed_out : (∀ obj, run.outcome ≠ .ok obj) → ∃ report reply,
    run.outcome = .error (.timeout report) ∧ other.outcome = .error (.timeout reply) ∧
      report.elapsed = run.finish ∧ reply.elapsed = other.finish

theorem Run.InStep.of_found {run : Run σ β ρ} {other : Run τ γ ρ}
    (hfinish : other.finish = run.finish) (hrun : run.outcome = .ok obj)
    (hother : other.outcome = .ok obj) : run.InStep other where
  finish_eq := hfinish
  ok_iff found := by rw [hrun, hother]
  timed_out hnone := absurd hrun (hnone obj)

theorem Run.InStep.of_timeout {run : Run σ β ρ} {other : Run τ γ ρ}
    (hfinish : other.finish = run.finish) (hrun : run.outcome = .error (.timeout report))
    (hother : other.outcome = .error (.timeout reply)) (helapsed : report.elapsed = run.finish)
    (hreply : reply.elapsed = other.finish) : run.InStep other where
  finish_eq := hfinish
  ok_iff obj := by
    rw [hrun, hother]
    exact ⟨nofun, nofun⟩
  timed_out _ := ⟨report, reply, hrun, hother, helapsed, hreply⟩

-- The one call more is judged like the rounds, so the runs stay in step.
theorem Poll.InStep.conclude [Writable α] {poll : Poll σ β α (Option (Watch.Candidate α))}
    {other : Poll τ γ α (Option (Watch.Candidate α))}
    {agree : Except StoreError β → Except StoreError γ → Prop} {alike : Duration → σ → τ → Prop}
    (hinStep : poll.InStep other agree alike) (halike : alike .zero state twin) (watch : Watch α)
    (awaited expected : String) :
    (watch.conclude awaited poll state).InStep (watch.conclude expected other twin) := by
  have hrounds := hinStep.rounds .zero state twin none none halike
  simp only [Watch.conclude]
  generalize poll.rounds .zero state none = rounds at hrounds ⊢
  generalize other.rounds .zero twin none = rest at hrounds ⊢
  have hverdict := hrounds.verdict
  cases hfirst : rounds.verdict with
  | settled result =>
      rw [hfirst] at hverdict
      obtain ⟨obj, rfl, hrest⟩ := hverdict.of_settled
      simp only [hrest]
      exact .of_found hrounds.finish_eq rfl rfl
  | undecided memory =>
      rw [hfirst] at hverdict
      obtain ⟨counterpart, hrest⟩ := hverdict.of_undecided
      obtain ⟨hlast, hreply, hjudge, _⟩ := hinStep.ask hrounds.alike
      have hsame := hreply.trans hlast.symm
      have hlater := hjudge memory counterpart
      simp only [hrest, hrounds.finish_eq]
      cases hlate : poll.judge (poll.ask rounds.finish rounds.state).1 memory with
      | settled result =>
          rw [hlate] at hlater
          obtain ⟨obj, rfl, hother⟩ := hlater.of_settled
          simp only [hother]
          exact .of_found hsame rfl rfl
      | undecided best =>
          rw [hlate] at hlater
          obtain ⟨kept, hother⟩ := hlater.of_undecided
          simp only [hother]
          exact .of_timeout hsame rfl rfl rfl rfl

end Eventually
