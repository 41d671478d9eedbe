import Eventually.Proofs.Assertion.Reports
import Eventually.Proofs.Poll.Trace
import Eventually.Store.Script

namespace Eventually

-- A run that ends at the first answer that decides it, with the result that this answer calls for,
-- and that otherwise gives up.
inductive Run.EndsAtFirst (decides : Exchange β → Except PollError ρ → Prop) : Run σ β ρ → Prop
  | decided {last : Exchange β} {result : Except PollError ρ} {state : σ}
      (hbefore : ∀ e ∈ before, ∀ result, ¬decides e result)
      (hlast : decides last result) :
      EndsAtFirst decides ⟨before ++ [last], last.finish, state, result⟩
  | timedOut {state : σ} (hnone : ∀ e ∈ before ++ [last], ∀ result, ¬decides e result) :
      EndsAtFirst decides ⟨before ++ [last], last.finish, state, .error (.timeout report)⟩

-- Running out of time is no answer, so it tells that none was decisive.
theorem Run.EndsAtFirst.timeout_iff {decides : Exchange β → Except PollError ρ → Prop}
    {run : Run σ β ρ} (hrun : run.EndsAtFirst decides)
    (hreport : ∀ e report, ¬decides e (.error (.timeout report))) :
    (∃ report, run.outcome = .error (.timeout report)) ↔
      ∀ e ∈ run.exchanges, ∀ result, ¬decides e result := by
  cases hrun with
  | timedOut hnone => exact ⟨fun _ => hnone, fun _ => ⟨_, rfl⟩⟩
  | @decided _ last result _ _ hlast =>
      constructor
      · intro htimeout
        obtain ⟨report, rfl⟩ := htimeout
        exact absurd hlast (hreport last report)
      · exact fun hnone => absurd hlast (hnone last (by simp) result)

-- An answer that decides is the last one of its run, and the outcome is what it calls for.
theorem Run.EndsAtFirst.of_decides {decides : Exchange β → Except PollError ρ → Prop}
    {run : Run σ β ρ} (hrun : run.EndsAtFirst decides) (he : e ∈ run.exchanges)
    (hdecides : decides e result) : decides e run.outcome ∧ run.finish = e.finish := by
  cases hrun with
  | timedOut hnone => exact absurd hdecides (hnone e he result)
  | decided hbefore hlast =>
      rcases List.mem_append.mp he with hmem | hmem
      · exact absurd hdecides (hbefore e hmem result)
      · cases List.mem_singleton.mp hmem
        exact ⟨hlast, rfl⟩

-- No call is made after an answer that decides.
theorem Run.EndsAtFirst.nothing_after {decides : Exchange β → Except PollError ρ → Prop}
    {run : Run σ β ρ} (hrun : run.EndsAtFirst decides)
    (hexchanges : run.exchanges = before ++ e :: after) (hdecides : decides e result) :
    after = [] := by
  have hmem : e ∈ run.exchanges := by simp [hexchanges]
  cases hrun with
  | timedOut hnone => exact absurd hdecides (hnone e hmem result)
  | decided hbefore =>
      rcases List.append_eq_append_iff.mp hexchanges with ⟨gap, _, hgap⟩ | ⟨gap, rfl, hgap⟩
      · have hlength := congrArg List.length hgap
        simp only [List.length_append, List.length_cons, List.length_nil] at hlength
        exact List.eq_nil_of_length_eq_zero (by omega)
      · cases gap with
        | nil =>
            cases hgap
            rfl
        | cons head gap =>
            cases hgap
            exact absurd hdecides (hbefore e (by simp) result)

namespace Poll

-- Which answers settle a poll, and how, does not depend on what it remembers.
def SettlesBy (poll : Poll σ β ρ μ) (decides : Exchange β → Except PollError ρ → Prop) : Prop :=
  ∀ e memory result, poll.judge e memory = .settled result ↔ decides e result

variable {poll : Poll σ β ρ μ} {decides : Exchange β → Except PollError ρ → Prop}
  {rounds : Rounds σ β ρ μ}

theorem SettlesBy.not_decides (hsettles : poll.SettlesBy decides)
    (hjudge : poll.judge e memory = .undecided kept) (result : Except PollError ρ) :
    ¬decides e result := by
  intro hdecides
  have hsettled := (hsettles e memory result).mpr hdecides
  rw [hjudge] at hsettled
  cases hsettled

theorem SettlesBy.unique (hsettles : poll.SettlesBy decides) (memory : μ)
    (hfirst : decides e first) (hsecond : decides e second) : first = second := by
  have hsame := ((hsettles e memory first).mpr hfirst).symm.trans
    ((hsettles e memory second).mpr hsecond)
  cases hsame
  rfl

theorem Trace.none_decides (htrace : poll.Trace now state memory rounds)
    (hsettles : poll.SettlesBy decides) (hverdict : rounds.verdict = .undecided kept) :
    ∀ e ∈ rounds.exchanges, ∀ result, ¬decides e result := by
  induction htrace with
  | settled => cases hverdict
  | expired _ hjudge => simpa using hsettles.not_decides hjudge
  | again _ hjudge _ _ ih =>
      exact List.forall_mem_cons.mpr ⟨hsettles.not_decides hjudge, ih hverdict⟩

theorem Trace.last_decides (htrace : poll.Trace now state memory rounds)
    (hsettles : poll.SettlesBy decides) (hverdict : rounds.verdict = .settled outcome) :
    ∃ before last, rounds.exchanges = before ++ [last] ∧ rounds.finish = last.finish ∧
      (∀ e ∈ before, ∀ result, ¬decides e result) ∧ decides last outcome := by
  induction htrace with
  | settled _ hjudge =>
      cases hverdict
      exact ⟨[], _, rfl, rfl, by simp, (hsettles ..).mp hjudge⟩
  | expired => cases hverdict
  | @again _ _ e _ _ _ _ _ hjudge _ _ ih =>
      obtain ⟨before, last, hexchanges, hfinish, hbefore, hlast⟩ := ih hverdict
      refine ⟨e :: before, last, congrArg (e :: ·) hexchanges, hfinish, ?_, hlast⟩
      exact List.forall_mem_cons.mpr ⟨hsettles.not_decides hjudge, hbefore⟩

end Poll

namespace Watch

variable [Writable α] {watch : Watch α} {poll : Poll σ β α (Option (Candidate α))}

theorem Concludes.endsAtFirst {decides : Exchange β → Except PollError α → Prop}
    (hrun : watch.Concludes awaited poll state run) (hsettles : poll.SettlesBy decides) :
    run.EndsAtFirst decides := by
  cases hrun with
  | early htrace hverdict =>
      obtain ⟨before, last, hexchanges, hfinish, hbefore, hlast⟩ :=
        htrace.last_decides hsettles hverdict
      rw [hexchanges, hfinish]
      exact .decided hbefore hlast
  | late htrace hverdict _ hjudge =>
      exact .decided (htrace.none_decides hsettles hverdict) ((hsettles ..).mp hjudge)
  | timedOut htrace hverdict _ hjudge =>
      refine .timedOut (List.forall_mem_append.mpr ⟨?_, ?_⟩)
      · exact htrace.none_decides hsettles hverdict
      · simpa using hsettles.not_decides hjudge

theorem Concludes.calls (hrun : watch.Concludes awaited poll state run) :
    poll.query.Calls poll.clock poll.schedule .zero state run.exchanges run.state := by
  cases hrun with
  | early htrace => exact htrace.calls
  | late htrace _ hstep =>
      exact htrace.calls.concat htrace.le_finish.1 htrace.le_finish.2 hstep
  | timedOut htrace _ hstep =>
      exact htrace.calls.concat htrace.le_finish.1 htrace.le_finish.2 hstep

-- Running out of time leaves only one way in which a run can have gone: its rounds were undecided,
-- and so was the call after them.
theorem Concludes.of_timeout {decides : Exchange β → Except PollError α → Prop}
    (hrun : watch.Concludes awaited poll state run) (hsettles : poll.SettlesBy decides)
    (hreport : ∀ e reported, ¬decides e (.error (.timeout reported)))
    {reported : TimeoutReport} (houtcome : run.outcome = .error (.timeout reported)) :
    ∃ rounds memory extra best, poll.Trace .zero state none rounds ∧
      rounds.verdict = .undecided memory ∧
      poll.query.Step poll.clock poll.schedule rounds.finish rounds.state extra run.state ∧
      poll.judge extra memory = .undecided best ∧
      run.exchanges = rounds.exchanges ++ [extra] ∧
      reported = watch.report awaited extra best := by
  cases hrun with
  | early htrace hverdict =>
      obtain ⟨_, last, _, _, _, hlast⟩ := htrace.last_decides hsettles hverdict
      cases houtcome
      exact absurd hlast (hreport last reported)
  | late _ _ _ hjudge =>
      cases houtcome
      exact absurd ((hsettles ..).mp hjudge) (hreport _ reported)
  | timedOut htrace hverdict hstep hjudge =>
      cases houtcome
      exact ⟨_, _, _, _, htrace, hverdict, hstep, hjudge, rfl, rfl⟩

-- A poll that runs out of time has made one call more, at once after a last answer that came too
-- late for another round, and it reports on that call.
theorem Concludes.extra_report {decides : Exchange β → Except PollError α → Prop}
    (hrun : watch.Concludes awaited poll state run) (hsettles : poll.SettlesBy decides)
    (hreport : ∀ e reported, ¬decides e (.error (.timeout reported)))
    {reported : TimeoutReport} (houtcome : run.outcome = .error (.timeout reported)) :
    ∃ before last extra best, run.exchanges = before ++ [last, extra] ∧
      poll.schedule.timeout.nanos ≤ last.finish.nanos ∧ extra.start = last.finish ∧
      reported = watch.report awaited extra best := by
  obtain ⟨rounds, memory, extra, best, htrace, hverdict, hstep, _, hexchanges, hreported⟩ :=
    hrun.of_timeout hsettles hreport houtcome
  obtain ⟨before, last, hrounds, hfinish⟩ := htrace.exists_last
  refine ⟨before, last, extra, best, ?_, ?_, ?_, hreported⟩
  · rw [hexchanges, hrounds, List.append_assoc, List.singleton_append]
  · rw [← hfinish]
    exact htrace.timeout_le hverdict
  · rw [hstep.start_eq, hfinish]

theorem Concludes.extra_call {decides : Exchange β → Except PollError α → Prop}
    (hrun : watch.Concludes awaited poll state run) (hsettles : poll.SettlesBy decides)
    (hreport : ∀ e reported, ¬decides e (.error (.timeout reported)))
    {reported : TimeoutReport} (houtcome : run.outcome = .error (.timeout reported)) :
    ∃ before last extra, run.exchanges = before ++ [last, extra] ∧
      poll.schedule.timeout.nanos ≤ last.finish.nanos ∧ extra.start = last.finish := by
  obtain ⟨before, last, extra, _, hexchanges, hover, hstart, _⟩ :=
    hrun.extra_report hsettles hreport houtcome
  exact ⟨before, last, extra, hexchanges, hover, hstart⟩

end Watch

namespace Checklist

-- The answers that end the wait for a match, and the result of each: an object that passes, and an
-- object that cannot be viewed as the list needs it.
inductive Decides (list : Checklist α) : Exchange α → Except PollError α → Prop
  | passed (hanswer : e.answer = .ok obj) (hpasses : list.passes obj) : Decides list e (.ok obj)
  | unviewable (hanswer : e.answer = .ok obj) (hview : list.viewError? obj = some error) :
      Decides list e (.error (.view error))

theorem not_decides_timeout (list : Checklist α) (e : Exchange α) (report : TimeoutReport) :
    ¬list.Decides e (.error (.timeout report)) := nofun

end Checklist

namespace Watch

theorem judgeObject_settled_iff (watch : Watch α) (e : Exchange α)
    (memory : Option (Candidate α)) (result : Except PollError α) :
    watch.judgeObject e memory = .settled result ↔ watch.list.Decides e result := by
  constructor
  · intro hjudge
    simp only [judgeObject] at hjudge
    split at hjudge
    next => cases hjudge
    next obj hanswer =>
      rw [Checklist.evaluate_eq] at hjudge
      cases hview : watch.list.viewError? obj with
      | some error =>
          simp only [hview] at hjudge
          cases hjudge
          exact .unviewable hanswer hview
      | none =>
          simp only [hview, ← Checklist.passes_eq_isEmpty] at hjudge
          split at hjudge
          next hpasses =>
            cases hjudge
            exact .passed hanswer hpasses
          next => cases hjudge
  · intro hdecides
    simp only [judgeObject]
    cases hdecides with
    | @passed obj _ hanswer hpasses =>
        have hview := watch.list.viewError?_eq_none_of_passes obj hpasses
        rw [Checklist.passes_eq_isEmpty] at hpasses
        simp only [hanswer, Checklist.evaluate_eq, hview, hpasses, ↓reduceIte]
    | unviewable hanswer hview => simp only [hanswer, Checklist.evaluate_eq, hview]

-- The wait for an object under a key, whatever the store answers and whenever. It ends at the first
-- answer that passes or cannot be viewed, the answer after the timeout included, and it runs out of
-- time exactly if there is no such answer.
theorem matching_endsAtFirst [Writable α] (watch : Watch α) (service : Service σ α) (clock : Clock)
    (state : σ) (key : Key) (hkey : watch.lookupKey = .ok key) (hrange : watch.config.InRange) :
    ∃ run, watch.matching service clock state = .ok run ∧
      (getQuery service key).Calls clock watch.config.schedule .zero state run.exchanges
        run.state ∧
      run.EndsAtFirst watch.list.Decides ∧
      ((∃ report, run.outcome = .error (.timeout report)) ↔
        ∀ e ∈ run.exchanges, ∀ result, ¬watch.list.Decides e result) ∧
      (∀ obj, run.outcome = .ok obj → watch.list.passes obj) ∧
      (∀ report, run.outcome = .error (.timeout report) →
        ∃ before last extra, run.exchanges = before ++ [last, extra] ∧
          watch.config.timeout.nanos ≤ last.finish.nanos ∧ extra.start = last.finish) := by
  obtain ⟨run, hrun, hconcludes⟩ := matching_concludes service clock state hkey hrange
  have hsettles : (watch.matchingPoll service clock key).SettlesBy watch.list.Decides :=
    watch.judgeObject_settled_iff
  have hends := hconcludes.endsAtFirst hsettles
  refine ⟨run, hrun, hconcludes.calls, hends, ?_, ?_, ?_⟩
  · exact hends.timeout_iff watch.list.not_decides_timeout
  · intro obj houtcome
    cases hends with
    | timedOut => cases houtcome
    | decided _ hlast =>
        cases houtcome
        cases hlast with
        | passed _ hpasses => exact hpasses
  · exact fun report houtcome =>
      hconcludes.extra_call hsettles watch.list.not_decides_timeout houtcome

theorem matching_endsAtFirst_of_flaky_script :
    let watch := awaitedItem 50 20
    let service := Script.service .milliseconds
      [⟨.zero, .backend "unreachable"⟩, ⟨.zero, .silence⟩,
        ⟨.ofMillis 5, .objects [⟨"toolchain", "counter", 3⟩]⟩]
    let key := Key.inScope "toolchain" "counter"
    watch.lookupKey = .ok key ∧ watch.config.InRange ∧
      ∃ run, watch.matching service .milliseconds 0 = .ok run ∧
        (getQuery service key).Calls .milliseconds watch.config.schedule .zero 0 run.exchanges
          run.state ∧
        run.EndsAtFirst watch.list.Decides ∧
        ((∃ report, run.outcome = .error (.timeout report)) ↔
          ∀ e ∈ run.exchanges, ∀ result, ¬watch.list.Decides e result) ∧
        (∀ obj, run.outcome = .ok obj → watch.list.passes obj) ∧
        (∀ report, run.outcome = .error (.timeout report) →
          ∃ before last extra, run.exchanges = before ++ [last, extra] ∧
            watch.config.timeout.nanos ≤ last.finish.nanos ∧ extra.start = last.finish) :=
  ⟨rfl, by decide, matching_endsAtFirst _ _ _ _ _ rfl (by decide)⟩

end Watch

end Eventually
