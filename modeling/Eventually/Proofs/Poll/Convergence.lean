import Eventually.Proofs.Clock
import Eventually.Proofs.Poll.History
import Eventually.Proofs.Poll.Selection
import Eventually.Proofs.Poll.Selection
import Eventually.Proofs.Store.Timeline

namespace Eventually

namespace Poll

-- A store that answers at once, a clock that can sleep for exactly a tick, and an onset before the
-- timeout.
structure Prompt (poll : Poll σ β ρ μ) (truth : Duration → Except StoreError β)
    (fault : Duration → StoreError → Prop) (start : σ) (onset : Duration) : Prop where
  follows : poll.query.Follows truth fault start
  tick_aligned : poll.clock.granule ∣ poll.schedule.tick.nanos
  onset_le : onset.nanos ≤ poll.schedule.timeout.nanos

-- No judgement of an answer ends the poll badly, and from the onset on every judgement ends it
-- well.
structure Welcomes (poll : Poll σ β ρ μ) (onset : Duration) (e : Exchange β) : Prop where
  not_error : ∀ memory error, poll.judge e memory ≠ .settled (.error error)
  ends : onset.nanos ≤ e.finish.nanos →
    ∀ memory, ∃ result, poll.judge e memory = .settled (.ok result)

variable {poll : Poll σ β ρ μ} {rounds : Rounds σ β ρ μ} {start : σ} {onset : Duration}

theorem Welcomes.lt_of_undecided (hwelcomes : poll.Welcomes onset e)
    (hjudge : poll.judge e memory = .undecided kept) : e.finish.nanos < onset.nanos := by
  refine Nat.not_le.mp fun hlate => ?_
  obtain ⟨result, hresult⟩ := hwelcomes.ends hlate memory
  rw [hjudge] at hresult
  cases hresult

-- A call from the onset on is the last one, and an undecided one before the onset is followed by
-- one less than a tick after it.
theorem Trace.converges (htrace : poll.Trace now state memory rounds)
    (hprompt : poll.Prompt truth fault start onset)
    (hreaches : poll.query.Reaches start now state) (haligned : poll.clock.granule ∣ now.nanos)
    (hnow : now.nanos < onset.nanos + poll.schedule.tick.nanos)
    (hwelcomes : ∀ e ∈ rounds.exchanges, Query.Tells truth fault e.finish e.answer →
      poll.Welcomes onset e) :
    ∃ result, rounds.verdict = .settled (.ok result) ∧
      rounds.finish.nanos < onset.nanos + poll.schedule.tick.nanos := by
  have honset := hprompt.onset_le
  induction htrace with
  | @settled _ _ e _ memory result hstep hjudge =>
      obtain ⟨rfl, htells, _⟩ := hprompt.follows.step hreaches hstep
      have hwelcome := hwelcomes e (List.mem_singleton_self e) htells
      cases result with
      | ok result => exact ⟨result, rfl, hnow⟩
      | error error => exact absurd hjudge (hwelcome.not_error memory error)
  | @expired _ _ e _ _ _ hstep hjudge hover =>
      obtain ⟨rfl, htells, _⟩ := hprompt.follows.step hreaches hstep
      have hwelcome := hwelcomes e (List.mem_singleton_self e) htells
      have hearly := hwelcome.lt_of_undecided hjudge
      omega
  | @again _ _ e _ _ _ rest hstep hjudge _ _ ih =>
      obtain ⟨rfl, htells, hnext⟩ := hprompt.follows.step hreaches hstep
      have hwelcome := hwelcomes e List.mem_cons_self htells
      have hearly := hwelcome.lt_of_undecided hjudge
      have hwake := poll.clock.wake_le_of_dvd haligned hprompt.tick_aligned
      refine ih ?_ (poll.clock.dvd_wake ..) ?_ ?_
      · exact hnext.wait (poll.clock.le_wake ..)
      · omega
      · exact fun other hother => hwelcomes other (List.mem_cons_of_mem e hother)

theorem Trace.converges_of_start (htrace : poll.Trace .zero start memory rounds)
    (hprompt : poll.Prompt truth fault start onset)
    (hwelcomes : ∀ e ∈ rounds.exchanges, Query.Tells truth fault e.finish e.answer →
      poll.Welcomes onset e) :
    ∃ result, rounds.verdict = .settled (.ok result) ∧
      rounds.finish.nanos < onset.nanos + poll.schedule.tick.nanos :=
  htrace.converges hprompt .start (Nat.dvd_zero _)
    (Nat.lt_add_left _ poll.schedule.tick_pos) hwelcomes

end Poll

-- A run that ends well before a given time.
def Run.SucceedsBefore (run : Run σ β ρ) (nanos : Nat) : Prop :=
  (∃ result, run.outcome = .ok result) ∧ run.finish.nanos < nanos

namespace Watch

section Runs

variable {watch : Watch α} {start : σ} {onset : Duration}

-- The call after the timeout is not needed.
theorem Concludes.converges [Writable α] {poll : Poll σ β α (Option (Candidate α))}
    (hrun : watch.Concludes awaited poll start run)
    (hprompt : poll.Prompt truth fault start onset)
    (hwelcomes : ∀ e ∈ run.exchanges, Query.Tells truth fault e.finish e.answer →
      poll.Welcomes onset e) :
    run.SucceedsBefore (onset.nanos + poll.schedule.tick.nanos) := by
  cases hrun with
  | early htrace hverdict =>
      obtain ⟨result, hresult, hfinish⟩ := htrace.converges_of_start hprompt hwelcomes
      cases hverdict.symm.trans hresult
      exact ⟨⟨result, rfl⟩, hfinish⟩
  | late htrace hverdict | timedOut htrace hverdict =>
      have hrounds := (List.forall_mem_append.mp hwelcomes).1
      obtain ⟨_, hresult, _⟩ := htrace.converges_of_start hprompt hrounds
      cases hverdict.symm.trans hresult

theorem Ceases.converges {key : Key} {poll : Poll σ α Unit Unit}
    (hrun : Ceases awaited key poll start run)
    (hprompt : poll.Prompt truth fault start onset)
    (hwelcomes : ∀ e ∈ run.exchanges, Query.Tells truth fault e.finish e.answer →
      poll.Welcomes onset e) :
    run.SucceedsBefore (onset.nanos + poll.schedule.tick.nanos) := by
  cases hrun with
  | early htrace hverdict =>
      obtain ⟨result, hresult, hfinish⟩ := htrace.converges_of_start hprompt hwelcomes
      cases hverdict.symm.trans hresult
      exact ⟨⟨result, rfl⟩, hfinish⟩
  | timedOut htrace hverdict =>
      obtain ⟨_, hresult, _⟩ := htrace.converges_of_start hprompt hwelcomes
      cases hverdict.symm.trans hresult

end Runs

end Watch

-- No object that a run has looked at could not be viewed.
def Run.Views (run : Run σ β ρ) (evaluate : β → Except ViewError γ) : Prop :=
  ∀ e ∈ run.exchanges, ∀ answer, e.answer = .ok answer → ∀ error, evaluate answer ≠ .error error

-- Errors that are over by a certain time.
def errorsBefore (onset now : Duration) (_ : StoreError) : Prop := now.nanos < onset.nanos

namespace Watch

variable {onset : Duration}

theorem matchingPoll_welcomes (watch : Watch α) (service : Service σ α) (clock : Clock) (key : Key)
    (history : History α)
    (hmatch : ∀ now, onset.nanos ≤ now.nanos →
      ∃ obj ∈ (history now).object? key, watch.list.passes obj)
    (hviews : ∀ obj, e.answer = .ok obj → ∀ error, watch.list.evaluate obj ≠ .error error)
    (htells : Query.Tells (fun now => (history now).fetch key) (errorsBefore onset) e.finish
      e.answer) :
    (watch.matchingPoll service clock key).Welcomes onset e where
  not_error memory error hjudge := by
    cases (watch.judgeObject_settled_iff ..).mp hjudge with
    | @unviewable obj error _ hanswer hview =>
        refine hviews obj hanswer error ?_
        rw [Checklist.evaluate_eq, hview]
  ends honset memory := by
    obtain ⟨obj, hobject, hpasses⟩ := hmatch e.finish honset
    have hanswer : e.answer = .ok obj := by
      rcases htells with htruth | ⟨_, _, hbefore⟩
      · simp only [htruth, Contents.fetch, Option.mem_def.mp hobject]
      · exact absurd hbefore (Nat.not_lt.mpr honset)
    exact ⟨obj, (watch.judgeObject_settled_iff ..).mpr (.passed hanswer hpasses)⟩

theorem firstMatchingPoll_welcomes (watch : Watch α) (service : Service σ α) (clock : Clock)
    (scope : Option String) (history : History α)
    (hmatch : ∀ now, onset.nanos ≤ now.nanos →
      ∃ obj ∈ (history now).listed scope, watch.list.passes obj)
    (hviews : ∀ candidates, e.answer = .ok candidates →
      ∀ error, watch.list.scan candidates ≠ .error error)
    (htells : Query.Tells (fun now => .ok ((history now).listed scope)) (errorsBefore onset)
      e.finish e.answer) :
    (watch.firstMatchingPoll service clock scope).Welcomes onset e where
  not_error memory error hjudge := by
    cases (watch.judgeList_settled_iff ..).mp hjudge with
    | unviewable hanswer hfirst => exact hviews _ hanswer _ hfirst.scan_eq
  ends honset memory := by
    have hanswer : e.answer = .ok ((history e.finish).listed scope) := by
      rcases htells with htruth | ⟨_, _, hbefore⟩
      · exact htruth
      · exact absurd hbefore (Nat.not_lt.mpr honset)
    obtain ⟨obj, hfirst⟩ := Checklist.exists_firstMatch (hviews _ hanswer)
      (hmatch e.finish honset)
    exact ⟨obj, (watch.judgeList_settled_iff ..).mpr (.matched hanswer hfirst)⟩

theorem deletedPoll_welcomes (watch : Watch α) (service : Service σ α) (clock : Clock) (key : Key)
    (history : History α)
    (habsent : ∀ now, onset.nanos ≤ now.nanos → (history now).object? key = none)
    (htells : Query.Tells (fun now => (history now).fetch key) (fun _ error => error.isNotFound)
      e.finish e.answer) :
    (watch.deletedPoll service clock key).Welcomes onset e := by
  rcases htells with htruth | ⟨error, herror, hfound⟩
  · cases hobject : (history e.finish).object? key with
    | none =>
        simp only [Contents.fetch, hobject] at htruth
        refine ⟨fun _ _ => ?_, fun _ _ => ⟨(), ?_⟩⟩ <;>
          simp [deletedPoll, judgeAbsence, htruth]
    | some obj =>
        simp only [Contents.fetch, hobject] at htruth
        refine ⟨fun _ _ => ?_, fun honset => ?_⟩
        · simp [deletedPoll, judgeAbsence, htruth]
        · rw [habsent e.finish honset] at hobject
          cases hobject
  · cases error with
    | backend => cases hfound
    | notFound =>
        refine ⟨fun _ _ => ?_, fun _ _ => ⟨(), ?_⟩⟩ <;>
          simp [deletedPoll, judgeAbsence, herror]

-- A store that answers at once is waited for less than a tick longer than needed, if its clock can
-- sleep for exactly a tick. What is waited for may come and go before the onset, and store errors
-- are then no harm, except when a deletion is waited for.
theorem misses_nothing [Writable α] (watch : Watch α) (service : Service σ α) (clock : Clock)
    (state : σ) (history : History α) (onset : Duration) (hrange : watch.config.InRange)
    (htick : clock.granule ∣ watch.config.effectiveTick.nanos)
    (honset : onset.nanos ≤ watch.config.timeout.nanos) :
    (∀ key, watch.lookupKey = .ok key →
      (getQuery service key).Follows (fun now => (history now).fetch key) (errorsBefore onset)
        state →
      (∀ now, onset.nanos ≤ now.nanos →
        ∃ obj ∈ (history now).object? key, watch.list.passes obj) →
      ∃ run, watch.matching service clock state = .ok run ∧
        (run.Views watch.list.evaluate →
          run.SucceedsBefore (onset.nanos + watch.config.effectiveTick.nanos))) ∧
    (∀ scope, watch.lookupScope = .ok scope →
      (listQuery service scope).Follows (fun now => .ok ((history now).listed scope))
        (errorsBefore onset) state →
      (∀ now, onset.nanos ≤ now.nanos →
        ∃ obj ∈ (history now).listed scope, watch.list.passes obj) →
      ∃ run, watch.firstMatching service clock state = .ok run ∧
        (run.Views watch.list.scan →
          run.SucceedsBefore (onset.nanos + watch.config.effectiveTick.nanos))) ∧
    (∀ key, watch.lookupKey = .ok key →
      (getQuery service key).Follows (fun now => (history now).fetch key)
        (fun _ error => error.isNotFound) state →
      (∀ now, onset.nanos ≤ now.nanos → (history now).object? key = none) →
      ∃ run, watch.deleted service clock state = .ok run ∧
        run.SucceedsBefore (onset.nanos + watch.config.effectiveTick.nanos)) := by
  refine ⟨?_, ?_, ?_⟩
  · intro key hkey hfollows hmatch
    obtain ⟨run, hrun, hconcludes⟩ := matching_concludes service clock state hkey hrange
    refine ⟨run, hrun, fun hviews => ?_⟩
    exact hconcludes.converges ⟨hfollows, htick, honset⟩ fun e he =>
      watch.matchingPoll_welcomes service clock key history hmatch (hviews e he)
  · intro scope hscope hfollows hmatch
    obtain ⟨run, hrun, hconcludes⟩ := firstMatching_concludes service clock state hscope hrange
    refine ⟨run, hrun, fun hviews => ?_⟩
    exact hconcludes.converges ⟨hfollows, htick, honset⟩ fun e he =>
      watch.firstMatchingPoll_welcomes service clock scope history hmatch (hviews e he)
  · intro key hkey hfollows habsent
    obtain ⟨run, hrun, hceases⟩ := deleted_ceases service clock state hkey hrange
    exact ⟨run, hrun, hceases.converges ⟨hfollows, htick, honset⟩ fun _ _ =>
      watch.deletedPoll_welcomes service clock key history habsent⟩

theorem awaitedItem_viewed (timeout tick : Nat) (item : Item) :
    (awaitedItem timeout tick).list.viewError? item = none := by
  simp only [awaitedItem, Checklist.viewError?, Checklist.reports, Assertion.reports,
    ItemRequirement.leaf, List.append_nil, List.findSome?_eq_none_iff, List.mem_map]
  rintro _ ⟨_, _, rfl⟩
  rfl

-- An item that gets its number late, and one that is deleted late.
theorem misses_nothing_of_late_writes :
    let watch := awaitedItem 100 30
    let key := Key.inScope "toolchain" "counter"
    let counted : Timeline Item :=
      ⟨{}, [⟨.ofMillis 40, .insert ⟨"toolchain", "counter", 1⟩⟩,
        ⟨.ofMillis 70, .update key ⟨"toolchain", "counter", 3⟩⟩]⟩
    let removed : Timeline Item :=
      ⟨.ofObjects [⟨"toolchain", "counter", 3⟩], [⟨.ofMillis 55, .delete key⟩]⟩
    (∃ run, watch.matching Timeline.service .milliseconds counted = .ok run ∧
      run.SucceedsBefore ((Duration.ofMillis 70).nanos + watch.config.effectiveTick.nanos)) ∧
    (∃ run, watch.firstMatching Timeline.service .milliseconds counted = .ok run ∧
      run.SucceedsBefore ((Duration.ofMillis 70).nanos + watch.config.effectiveTick.nanos)) ∧
    (∃ run, watch.deleted Timeline.service .milliseconds removed = .ok run ∧
      run.SucceedsBefore ((Duration.ofMillis 55).nanos + watch.config.effectiveTick.nanos)) := by
  intro watch key counted removed
  have hcounted (now : Duration) (hnow : (Duration.ofMillis 70).nanos ≤ now.nanos) :
      (counted.advance now).shelf.objects = [⟨"toolchain", "counter", 3⟩] := by
    rw [counted.advance_of_due]
    · decide
    · simp only [counted, Duration.ofMillis, List.forall_mem_cons] at hnow ⊢
      simp
      omega
  have hremoved (now : Duration) (hnow : (Duration.ofMillis 55).nanos ≤ now.nanos) :
      (removed.advance now).shelf.objects = [] := by
    rw [removed.advance_of_due]
    · decide
    · simpa [removed] using hnow
  have hpasses : watch.list.passes ⟨"toolchain", "counter", 3⟩ := by decide
  have hthere (now : Duration) (hnow : (Duration.ofMillis 70).nanos ≤ now.nanos) :
      ∃ obj ∈ (counted.history now).object? key, watch.list.passes obj := by
    refine ⟨⟨"toolchain", "counter", 3⟩, ?_, hpasses⟩
    simp only [Timeline.history, Shelf.contents, Shelf.peek?, hcounted now hnow]
    rfl
  have hlisted (now : Duration) (hnow : (Duration.ofMillis 70).nanos ≤ now.nanos) :
      ∃ obj ∈ (counted.history now).listed none, watch.list.passes obj := by
    refine ⟨⟨"toolchain", "counter", 3⟩, ?_, hpasses⟩
    simp only [Timeline.history, Shelf.contents, Shelf.listed, hcounted now hnow]
    decide
  have hgone (now : Duration) (hnow : (Duration.ofMillis 55).nanos ≤ now.nanos) :
      (removed.history now).object? key = none := by
    simp only [Timeline.history, Shelf.contents, Shelf.peek?, hremoved now hnow]
    rfl
  have hrange : watch.config.InRange := by decide
  have htick : Clock.milliseconds.granule ∣ watch.config.effectiveTick.nanos := by decide
  have hcount : (Duration.ofMillis 70).nanos ≤ watch.config.timeout.nanos := by decide
  have hremove : (Duration.ofMillis 55).nanos ≤ watch.config.timeout.nanos := by decide
  refine ⟨?_, ?_, ?_⟩
  · obtain ⟨run, hrun, hsucceeds⟩ :=
      (misses_nothing watch Timeline.service .milliseconds counted counted.history (.ofMillis 70)
        hrange htick hcount).1 key rfl (counted.get_follows key _) hthere
    refine ⟨run, hrun, hsucceeds fun _ _ obj _ error herror => ?_⟩
    rw [Checklist.evaluate_eq, awaitedItem_viewed 100 30 obj] at herror
    cases herror
  · obtain ⟨run, hrun, hsucceeds⟩ :=
      (misses_nothing watch Timeline.service .milliseconds counted counted.history (.ofMillis 70)
        hrange htick hcount).2.1 none rfl (counted.list_follows none _) hlisted
    exact ⟨run, hrun, hsucceeds fun _ _ _ _ =>
      Checklist.scan_ne_error fun obj _ => awaitedItem_viewed 100 30 obj⟩
  · exact (misses_nothing watch Timeline.service .milliseconds removed removed.history
      (.ofMillis 55) hrange htick hremove).2.2 key rfl (removed.get_follows key _) hgone

end Watch

end Eventually
