import Eventually.Proofs.Clock
import Eventually.Proofs.Poll.History
import Eventually.Store.Script

namespace Eventually

namespace Schedule

theorem tick_le_budget (schedule : Schedule) {now : Duration}
    (hnow : now.nanos ≤ schedule.timeout.nanos) :
    schedule.tick.nanos ≤ (schedule.budget now).nanos := by
  simp only [budget, hardLimit]
  omega

theorem budget_lt_tick (schedule : Schedule) {now : Duration}
    (hnow : schedule.timeout.nanos < now.nanos) :
    (schedule.budget now).nanos < schedule.tick.nanos := by
  have htick := schedule.tick_pos
  simp only [budget, hardLimit]
  omega

end Schedule

namespace Exchange

def Succeeds (e : Exchange β) : Prop := ∃ answer, e.answer = .ok answer

-- A call that was given up although a tick had not passed, having begun after the timeout.
structure CutShort (e : Exchange β) (schedule : Schedule) (late : Duration → StoreError) :
    Prop where
  answer_eq : e.answer = .error (late e.budget)
  timeout_lt_start : schedule.timeout.nanos < e.start.nanos
  budget_lt_tick : e.budget.nanos < schedule.tick.nanos

end Exchange

namespace Query

-- A store that answers every call within a certain time and never with an error.
def Serves (query : Query σ β) (within : Duration) (state : σ) : Prop :=
  ∀ now current, query.Reaches state now current →
    ∃ c ∈ (query.call now current).completion,
      c.latency.nanos ≤ within.nanos ∧ ∃ answer, c.answer = .ok answer

theorem Serves.mono {query : Query σ β} {state : σ} (hserves : query.Serves within state)
    (hle : within.nanos ≤ longer.nanos) : query.Serves longer state := by
  intro now current hreaches
  obtain ⟨c, hc, hlatency, hanswer⟩ := hserves now current hreaches
  exact ⟨c, hc, Nat.le_trans hlatency hle, hanswer⟩

-- Only a call that begins after the timeout is given less time than the store may need.
theorem Serves.step {query : Query σ β} {start : σ} (hserves : query.Serves schedule.tick start)
    (hcut : clock.cut schedule.tick = schedule.tick) (hreaches : query.Reaches start now state)
    (hstep : query.Step clock schedule now state e next) :
    e.Succeeds ∧ query.Reaches start e.finish next ∨ e.CutShort schedule query.late := by
  obtain ⟨c, hc, hlatency, answer, hanswer⟩ := hserves now state hreaches
  cases hstep with
  | answered other hother =>
      have hcall := hreaches.call other hother
      rw [Option.mem_unique hother hc] at hcall ⊢
      exact .inl ⟨⟨answer, hanswer⟩, hcall⟩
  | elapsed hlate =>
      have hbeyond := hlate c hc
      have hdeadline := clock.add_cut_le_deadline now (schedule.budget now)
      have hstart : schedule.timeout.nanos < now.nanos := by
        refine Nat.not_le.mp fun hnow => ?_
        have hbudget := clock.cut_mono (schedule.tick_le_budget hnow)
        rw [hcut] at hbudget
        omega
      exact .inr ⟨rfl, hstart, schedule.budget_lt_tick hstart⟩

end Query

-- How a wait for a deletion ends that does not come: with an answer after the timeout, or with a
-- call that is cut short.
inductive Run.Outlasted (awaited : String) (key : Key) (schedule : Schedule)
    (late : Duration → StoreError) : Run σ α Unit → Prop
  | timedOut {last : Exchange α} {state : σ}
      (hbefore : ∀ e ∈ before, e.Succeeds ∧ e.finish.nanos < schedule.timeout.nanos)
      (hlast : last.Succeeds) (hover : schedule.timeout.nanos ≤ last.finish.nanos) :
      Outlasted awaited key schedule late
        ⟨before ++ [last], last.finish, state,
          .error (.timeout (Watch.stillThere awaited key last.finish))⟩
  | cutShort {last : Exchange α} {state : σ}
      (hbefore : ∀ e ∈ before, e.Succeeds ∧ e.finish.nanos < schedule.timeout.nanos)
      (hlast : last.CutShort schedule late) :
      Outlasted awaited key schedule late
        ⟨before ++ [last], last.finish, state,
          .error (.store awaited last.finish (late last.budget))⟩

theorem Run.Outlasted.cons {run : Run σ α Unit} {key : Key}
    (hrun : run.Outlasted awaited key schedule late) {e : Exchange α} (hsucceeds : e.Succeeds)
    (hfinish : e.finish.nanos < schedule.timeout.nanos) :
    Run.Outlasted awaited key schedule late { run with exchanges := e :: run.exchanges } := by
  cases hrun with
  | timedOut hbefore hlast hover =>
      exact .timedOut (List.forall_mem_cons.mpr ⟨⟨hsucceeds, hfinish⟩, hbefore⟩) hlast hover
  | cutShort hbefore hlast =>
      exact .cutShort (List.forall_mem_cons.mpr ⟨⟨hsucceeds, hfinish⟩, hbefore⟩) hlast

namespace Watch

section Deletion

variable {key : Key} {service : Service σ α} {start : σ} {rounds : Rounds σ α Unit Unit}

theorem judgeAbsence_of_succeeds {e : Exchange α} (hsucceeds : e.Succeeds) (memory : Unit) :
    judgeAbsence awaited e memory = .undecided () := by
  obtain ⟨obj, hobj⟩ := hsucceeds
  simp only [judgeAbsence, hobj]

theorem judgeAbsence_of_cutShort {e : Exchange α}
    (hcut : e.CutShort schedule (getQuery service key).late) (memory : Unit) :
    judgeAbsence awaited e memory =
      .settled (.error (.store awaited e.finish ((getQuery service key).late e.budget))) := by
  simp only [judgeAbsence, hcut.answer_eq]
  rfl

-- The run that the rounds of a wait for a deletion come to.
def ceased (awaited : String) (key : Key) (rounds : Rounds σ α Unit Unit) : Run σ α Unit where
  exchanges := rounds.exchanges
  finish := rounds.finish
  state := rounds.state
  outcome := match rounds.verdict with
    | .settled outcome => outcome
    | .undecided _ => .error (.timeout (stillThere awaited key rounds.finish))

theorem deleted_eq_ceased {watch : Watch α} (clock : Clock) (hkey : watch.lookupKey = .ok key)
    (hrange : watch.config.InRange) :
    watch.deleted service clock start = .ok (ceased (watch.awaitedDeletion key) key
      ((watch.deletedPoll service clock key).rounds .zero start ())) := by
  simp only [deleted, hkey, PollConfig.schedule?_eq_some hrange]
  rfl

theorem ceased_outlasted {schedule : Schedule} {clock : Clock}
    (htrace : Poll.Trace ⟨getQuery service key, judgeAbsence awaited, clock, schedule⟩ now state
      memory rounds)
    (hserves : (getQuery service key).Serves schedule.tick start)
    (hcut : clock.cut schedule.tick = schedule.tick)
    (hreaches : (getQuery service key).Reaches start now state) :
    (ceased awaited key rounds).Outlasted awaited key schedule (getQuery service key).late := by
  induction htrace with
  | @settled _ _ e _ memory _ hstep hjudge =>
      rcases hserves.step hcut hreaches hstep with ⟨hsucceeds, _⟩ | hshort
      · cases (judgeAbsence_of_succeeds hsucceeds memory).symm.trans hjudge
      · cases (judgeAbsence_of_cutShort hshort memory).symm.trans hjudge
        exact .cutShort (List.forall_mem_nil _) hshort
  | @expired _ _ e _ memory _ hstep hjudge hover =>
      rcases hserves.step hcut hreaches hstep with ⟨hsucceeds, _⟩ | hshort
      · exact .timedOut (List.forall_mem_nil _) hsucceeds hover
      · cases (judgeAbsence_of_cutShort hshort memory).symm.trans hjudge
  | @again _ _ e _ memory _ rest hstep hjudge hleft _ ih =>
      rcases hserves.step hcut hreaches hstep with ⟨hsucceeds, hnext⟩ | hshort
      · exact (ih (hnext.wait (clock.le_wake ..))).cons hsucceeds hleft
      · cases (judgeAbsence_of_cutShort hshort memory).symm.trans hjudge

end Deletion

-- However slow a store is that answers each call within a tick, the wait for a deletion that does
-- not come ends with a store error only if its last call began after the timeout. A call that
-- begins earlier has the whole tick.
theorem deleted_outlasted (watch : Watch α) (service : Service σ α) (clock : Clock) (state : σ)
    (key : Key) (hkey : watch.lookupKey = .ok key) (hrange : watch.config.InRange)
    (hcut : clock.cut watch.config.effectiveTick = watch.config.effectiveTick)
    (hserves : (getQuery service key).Serves watch.config.effectiveTick state) :
    ∃ run, watch.deleted service clock state = .ok run ∧
      run.Outlasted (watch.awaitedDeletion key) key watch.config.schedule
        (getQuery service key).late := by
  have htrace := (watch.deletedPoll service clock key).rounds_trace .zero state ()
  exact ⟨_, deleted_eq_ceased clock hkey hrange, ceased_outlasted htrace hserves hcut .start⟩

-- An item that is there at each call, and some milliseconds late.
def lateItem (millis : Nat) : Service Nat Item :=
  Script.service .milliseconds [⟨.ofMillis millis, .objects [⟨"toolchain", "counter", 1⟩]⟩]

theorem lateItem_completion (millis : Nat) (key : Key) (now : Duration) (calls : Nat) :
    ((getQuery (lateItem millis) key).call now calls).completion =
      some ⟨⟨(Clock.milliseconds.delayed now (.ofMillis millis)).nanos - now.nanos⟩,
        .ok ⟨"toolchain", "counter", 1⟩, calls + 1⟩ := by
  cases calls <;>
    simp [getQuery, lateItem, Script.service, Script.reply, Script.cue?, Cue.answer?,
      Script.firstOf]

theorem lateItem_serves (millis : Nat) (key : Key) (calls : Nat) :
    (getQuery (lateItem millis) key).Serves (.ofMillis (millis + 1)) calls := by
  intro now calls _
  have hlate := Clock.milliseconds.delayed_lt now (.ofMillis millis)
  have hgranule : Clock.milliseconds.granule = 1000000 := rfl
  refine ⟨_, lateItem_completion millis key now calls, ?_, _, rfl⟩
  simp only [Duration.ofMillis, hgranule] at hlate ⊢
  omega

theorem deleted_outlasted_of_late_item :
    let watch := awaitedItem 50 20
    let service := lateItem 15
    let key := Key.inScope "toolchain" "counter"
    watch.lookupKey = .ok key ∧ watch.config.InRange ∧
      Clock.milliseconds.cut watch.config.effectiveTick = watch.config.effectiveTick ∧
      (getQuery service key).Serves watch.config.effectiveTick 0 ∧
      ∃ run, watch.deleted service .milliseconds 0 = .ok run ∧
        run.Outlasted (watch.awaitedDeletion key) key watch.config.schedule
          (getQuery service key).late := by
  intro watch service key
  have hrange : watch.config.InRange := by decide
  have hcut : Clock.milliseconds.cut watch.config.effectiveTick = watch.config.effectiveTick := by
    decide
  have hserves : (getQuery service key).Serves watch.config.effectiveTick 0 :=
    (lateItem_serves 15 key 0).mono (by decide)
  exact ⟨rfl, hrange, hcut, hserves, deleted_outlasted _ _ _ _ key rfl hrange hcut hserves⟩

-- The second call begins six milliseconds after the timeout, which leaves it four of its ten.
theorem deleted_gives_up_on_late_item :
    let watch := awaitedItem 10 10
    let service := lateItem 6
    let key := Key.inScope "toolchain" "counter"
    watch.lookupKey = .ok key ∧ watch.config.InRange ∧
      (getQuery service key).Serves watch.config.effectiveTick 0 ∧
      ∃ run, watch.deleted service .milliseconds 0 = .ok run ∧
        run.outcome = .error (.store (watch.awaitedDeletion key) (.ofMillis 20)
          ((getQuery service key).late (.ofMillis 4))) := by
  intro watch service key
  have hkey : watch.lookupKey = .ok key := rfl
  have hrange : watch.config.InRange := by decide
  have hserves : (getQuery service key).Serves watch.config.effectiveTick 0 :=
    (lateItem_serves 6 key 0).mono (by decide)
  have hfirst : (getQuery service key).exchange .milliseconds watch.config.schedule .zero 0 =
      (⟨.zero, .ofMillis 10, .ofMillis 6, .ok ⟨"toolchain", "counter", 1⟩⟩, 1) := by
    have hbudget : watch.config.schedule.budget .zero = .ofMillis 10 := by decide
    have hdeadline : Clock.milliseconds.deadline .zero (.ofMillis 10) = .ofMillis 10 := by decide
    have hready : Clock.milliseconds.delayed .zero (.ofMillis 6) = .ofMillis 6 := by decide
    simp only [Query.exchange, hbudget, hdeadline, service, lateItem_completion, hready]
    simp [Duration.ofMillis, Duration.zero]
  have hsecond : (getQuery service key).exchange .milliseconds watch.config.schedule
      (.ofMillis 16) 1 = (⟨.ofMillis 16, .ofMillis 4, .ofMillis 20,
        .error ((getQuery service key).late (.ofMillis 4))⟩, 2) := by
    have hbudget : watch.config.schedule.budget (.ofMillis 16) = .ofMillis 4 := by decide
    have hdeadline : Clock.milliseconds.deadline (.ofMillis 16) (.ofMillis 4) = .ofMillis 20 := by
      decide
    have hready : Clock.milliseconds.delayed (.ofMillis 16) (.ofMillis 6) = .ofMillis 22 := by
      decide
    simp only [Query.exchange, hbudget, hdeadline, service, lateItem_completion, hready]
    simp [Duration.ofMillis, Query.giveUp, lateItem, getQuery, Script.service, Script.reply]
  have hwake : Clock.milliseconds.wake (.ofMillis 6) watch.config.schedule.tick =
      .ofMillis 16 := by decide
  have hleft : (Duration.ofMillis 6).nanos < watch.config.schedule.timeout.nanos := by decide
  have hverdict : ((watch.deletedPoll service .milliseconds key).rounds .zero 0 ()).verdict =
      .settled (.error (.store (watch.awaitedDeletion key) (.ofMillis 20)
        ((getQuery service key).late (.ofMillis 4)))) := by
    rw [Poll.rounds]
    simp only [deletedPoll, Poll.ask, hfirst, judgeAbsence, hleft, hwake, ↓reduceDIte,
      Rounds.before]
    rw [Poll.rounds]
    simp only [Poll.ask, hsecond, judgeAbsence]
    rfl
  refine ⟨hkey, hrange, hserves, _, deleted_eq_ceased .milliseconds hkey hrange, ?_⟩
  simp only [ceased, hverdict]

end Watch

end Eventually
