import Eventually.Proofs.Poll.Selection
import Eventually.Proofs.Store.Script

namespace Eventually

-- The last answer of a sequence of calls that was not an error.
def lastAnswer? (exchanges : List (Exchange β)) : Option β :=
  (exchanges.filterMap fun e => e.answer.toOption).getLast?

theorem lastAnswer?_append (first second : List (Exchange β)) :
    lastAnswer? (first ++ second) = (lastAnswer? second).or (lastAnswer? first) := by
  rw [lastAnswer?, List.filterMap_append, List.getLast?_append]
  rfl

theorem lastAnswer?_eq_none {exchanges : List (Exchange β)}
    (hfailed : ∀ e ∈ exchanges, ∃ error, e.answer = .error error) :
    lastAnswer? exchanges = none := by
  rw [lastAnswer?, List.getLast?_eq_none_iff, List.filterMap_eq_nil_iff]
  intro e he
  obtain ⟨error, hanswer⟩ := hfailed e he
  rw [hanswer]
  rfl

-- What is remembered after a sequence of calls: what the last answer calls for, and if all calls
-- failed, the same as before.
inductive Recalled (recalls : β → μ → Prop) (memory : μ) (exchanges : List (Exchange β)) : μ → Prop
  | unchanged (hnone : lastAnswer? exchanges = none) : Recalled recalls memory exchanges memory
  | answered (hlast : lastAnswer? exchanges = some answer) (hrecalls : recalls answer kept) :
      Recalled recalls memory exchanges kept

theorem Recalled.append {recalls : β → μ → Prop} (hfirst : Recalled recalls memory first middle)
    (hsecond : Recalled recalls middle second kept) :
    Recalled recalls memory (first ++ second) kept := by
  cases hsecond with
  | answered hlast hrecalls =>
      exact .answered (by rw [lastAnswer?_append, hlast, Option.some_or]) hrecalls
  | unchanged hnone =>
      cases hfirst with
      | unchanged hfirst =>
          exact .unchanged (by rw [lastAnswer?_append, hnone, hfirst, Option.none_or])
      | answered hlast hrecalls =>
          exact .answered (by rw [lastAnswer?_append, hnone, hlast, Option.none_or]) hrecalls

namespace Poll

-- An undecided answer leaves a memory of its own, and an error leaves the memory as it was.
def Remembers (poll : Poll σ β ρ μ) (recalls : β → μ → Prop) : Prop :=
  ∀ e memory kept, poll.judge e memory = .undecided kept → Recalled recalls memory [e] kept

variable {poll : Poll σ β ρ μ} {rounds : Rounds σ β ρ μ} {recalls : β → μ → Prop}

theorem Trace.recalled (htrace : poll.Trace now state memory rounds)
    (hremembers : poll.Remembers recalls) (hverdict : rounds.verdict = .undecided kept) :
    Recalled recalls memory rounds.exchanges kept := by
  induction htrace with
  | settled => cases hverdict
  | expired _ hjudge =>
      cases hverdict
      exact hremembers _ _ _ hjudge
  | again _ hjudge _ _ ih => exact (hremembers _ _ _ hjudge).append (ih hverdict)

end Poll

namespace Checklist

-- An object that fails is remembered with its failures.
structure Recalls (list : Checklist α) (obj : α) (kept : Option (Watch.Candidate α)) : Prop where
  skips : list.Skips obj
  kept_eq : kept = some (obj, list.failures obj)

-- Of candidates that fail the closest is remembered.
structure RecallsClosest (list : Checklist α) (candidates : List α)
    (kept : Option (Watch.Candidate α)) : Prop where
  skips : ∀ other ∈ candidates, list.Skips other
  closest : list.Closest candidates kept

end Checklist

namespace Watch

theorem judgeObject_remembers (watch : Watch α) (service : Service σ α) (clock : Clock)
    (key : Key) : (watch.matchingPoll service clock key).Remembers watch.list.Recalls := by
  intro e memory kept hjudge
  simp only [matchingPoll, judgeObject] at hjudge
  split at hjudge
  next error hanswer =>
    cases hjudge
    exact .unchanged (by simp [lastAnswer?, hanswer, Except.toOption])
  next obj hanswer =>
    have hlast : lastAnswer? [e] = some obj := by simp [lastAnswer?, hanswer, Except.toOption]
    rcases watch.list.decides_or_skips obj with hpasses | ⟨error, hview⟩ | hskips
    · simp [watch.list.evaluate_of_passes hpasses] at hjudge
    · simp [Checklist.evaluate_eq, hview] at hjudge
    · obtain ⟨hevaluate, hfailures⟩ := watch.list.evaluate_of_skips hskips
      simp only [hevaluate, hfailures, Bool.false_eq_true, ↓reduceIte] at hjudge
      cases hjudge
      exact .answered hlast ⟨hskips, rfl⟩

theorem judgeList_remembers (watch : Watch α) (service : Service σ α) (clock : Clock)
    (scope : Option String) :
    (watch.firstMatchingPoll service clock scope).Remembers watch.list.RecallsClosest := by
  intro e memory kept hjudge
  simp only [firstMatchingPoll, judgeList] at hjudge
  split at hjudge
  next error hanswer =>
    cases hjudge
    exact .unchanged (by simp [lastAnswer?, hanswer, Except.toOption])
  next candidates hanswer =>
    split at hjudge
    next => cases hjudge
    next => cases hjudge
    next closest hscan =>
      cases hjudge
      obtain ⟨hskips, hclosest⟩ := Checklist.scan_eq_unmatched_iff.mp hscan
      exact .answered (by simp [lastAnswer?, hanswer, Except.toOption]) ⟨hskips, hclosest⟩

variable [Writable α] {watch : Watch α}

-- The report of a poll that ran out of time is made of its last call and of what it remembers then.
theorem Concludes.reported {poll : Poll σ β α (Option (Candidate α))}
    {decides : Exchange β → Except PollError α → Prop} {recalls : β → Option (Candidate α) → Prop}
    (hrun : watch.Concludes awaited poll state run) (hsettles : poll.SettlesBy decides)
    (hreport : ∀ e reported, ¬decides e (.error (.timeout reported)))
    (hremembers : poll.Remembers recalls) {reported : TimeoutReport}
    (houtcome : run.outcome = .error (.timeout reported)) :
    ∃ before extra best, run.exchanges = before ++ [extra] ∧
      reported = watch.report awaited extra best ∧ Recalled recalls none run.exchanges best := by
  obtain ⟨rounds, memory, extra, best, htrace, hverdict, _, hjudge, hexchanges, hreported⟩ :=
    hrun.of_timeout hsettles hreport houtcome
  refine ⟨rounds.exchanges, extra, best, hexchanges, hreported, ?_⟩
  rw [hexchanges]
  exact (htrace.recalled hremembers hverdict).append (hremembers _ _ _ hjudge)

-- Only a poll that has begun can run out of time.
theorem matching_concludes_of_timeout {service : Service σ α}
    (hrun : watch.matching service clock state = .ok run)
    (houtcome : run.outcome = .error (.timeout reported)) :
    ∃ key, watch.Concludes (watch.awaitedMatch key) (watch.matchingPoll service clock key) state
      run := by
  cases hkey : watch.lookupKey with
  | error e =>
      cases (matching_refused service clock state hkey).symm.trans hrun
      cases houtcome
  | ok key =>
      by_cases hrange : watch.config.InRange
      · obtain ⟨_, hbegun, hconcludes⟩ := matching_concludes service clock state hkey hrange
        cases hbegun.symm.trans hrun
        exact ⟨key, hconcludes⟩
      · simp [matching, hkey, PollConfig.schedule?_eq_none hrange] at hrun

theorem firstMatching_concludes_of_timeout {service : Service σ α}
    (hrun : watch.firstMatching service clock state = .ok run)
    (houtcome : run.outcome = .error (.timeout reported)) :
    ∃ scope, watch.Concludes (watch.awaitedAny scope) (watch.firstMatchingPoll service clock scope)
      state run := by
  cases hscope : watch.lookupScope with
  | error e =>
      cases (firstMatching_refused service clock state hscope).symm.trans hrun
      cases houtcome
  | ok scope =>
      by_cases hrange : watch.config.InRange
      · obtain ⟨_, hbegun, hconcludes⟩ := firstMatching_concludes service clock state hscope hrange
        cases hbegun.symm.trans hrun
        exact ⟨scope, hconcludes⟩
      · simp [firstMatching, hscope, PollConfig.schedule?_eq_none hrange] at hrun

end Watch

namespace Checklist

-- There is an explanation unless the object or its repaired copy cannot be written.
theorem explain_toOption_eq_none_iff [Writable α] (list : Checklist α) (obj : α) :
    (list.explain obj).toOption = none ↔
      (∃ reason, Writable.write obj = .error reason) ∨
        ∃ reason, Writable.write (list.repair obj).object = .error reason := by
  simp only [explain]
  split <;> simp_all [Except.toOption]

theorem failures_ne_nil {list : Checklist α} {obj : α} (hskips : list.Skips obj) :
    list.failures obj ≠ [] := by
  have hempty := (list.evaluate_of_skips hskips).2
  rintro hnil
  rw [hnil] at hempty
  cases hempty

end Checklist

namespace Checklist

variable {list : Checklist α}

theorem Decides.exists_answer (hdecides : list.Decides e result) :
    ∃ obj, e.answer = .ok obj ∧ ¬list.Skips obj := by
  cases hdecides with
  | passed hanswer hpasses => exact ⟨_, hanswer, fun hskips => hskips.fails hpasses⟩
  | unviewable hanswer hview =>
      refine ⟨_, hanswer, fun hskips => ?_⟩
      cases hskips.viewed.symm.trans hview

theorem Selects.exists_answer (hselects : list.Selects e result) :
    ∃ candidates, e.answer = .ok candidates ∧ ¬∀ obj ∈ candidates, list.Skips obj := by
  cases hselects with
  | matched hanswer hfirst | unviewable hanswer hfirst =>
      refine ⟨_, hanswer, fun hskips => ?_⟩
      cases (scan_of_skips hskips).symm.trans hfirst.scan_eq

end Checklist

-- A report about one object, with its failures and its explanation, or about none.
inductive TimeoutReport.Describes [Writable α] (reported : TimeoutReport) (list : Checklist α) :
    Option α → Prop
  | nothing (failures_eq : reported.failures = []) (explanation_eq : reported.explanation = none) :
      Describes reported list none
  | object (failures_eq : reported.failures = list.failures obj)
      (failures_ne : reported.failures ≠ [])
      (explanation_eq : reported.explanation = (list.explain obj).toOption)
      (absent_iff : reported.explanation = none ↔
        (∃ reason, Writable.write obj = .error reason) ∨
          ∃ reason, Writable.write (list.repair obj).object = .error reason) :
      Describes reported list (some obj)

-- A run whose last call came after the timeout, and a report that gives the error of that call.
def Run.EndsLate (run : Run σ β ρ) (timeout : Duration) (reported : TimeoutReport) : Prop :=
  ∃ before last extra, run.exchanges = before ++ [last, extra] ∧
    timeout.nanos ≤ last.finish.nanos ∧ extra.start = last.finish ∧
    ∀ text, reported.lastError = some text ↔
      ∃ error, extra.answer = .error error ∧ error.message = text

namespace Watch

theorem lastErrorText_eq_some_iff (e : Exchange β) (text : String) :
    lastErrorText e = some text ↔ ∃ error, e.answer = .error error ∧ error.message = text := by
  simp only [lastErrorText]
  split <;> simp_all

variable [Writable α] {watch : Watch α}

theorem report_describes (last : Exchange β)
    (hbest : ∀ obj failures, best = some (obj, failures) →
      watch.list.Skips obj ∧ failures = watch.list.failures obj) :
    (watch.report awaited last best).Describes watch.list (best.map Prod.fst) := by
  cases best with
  | none => exact .nothing rfl rfl
  | some candidate =>
      obtain ⟨obj, failures⟩ := candidate
      obtain ⟨hskips, rfl⟩ := hbest obj failures rfl
      exact .object rfl (Checklist.failures_ne_nil hskips) rfl
        (watch.list.explain_toOption_eq_none_iff obj)

theorem Concludes.endsLate {poll : Poll σ β α (Option (Candidate α))}
    {decides : Exchange β → Except PollError α → Prop}
    (hrun : watch.Concludes awaited poll state run) (hsettles : poll.SettlesBy decides)
    (hreport : ∀ e reported, ¬decides e (.error (.timeout reported))) {reported : TimeoutReport}
    (houtcome : run.outcome = .error (.timeout reported)) :
    run.EndsLate poll.schedule.timeout reported := by
  obtain ⟨before, last, extra, best, hexchanges, hover, hstart, rfl⟩ :=
    hrun.extra_report hsettles hreport houtcome
  exact ⟨before, last, extra, hexchanges, hover, hstart, lastErrorText_eq_some_iff extra⟩

-- A store that has only answers that decide nothing lets the time run out.
theorem Concludes.times_out {poll : Poll σ β α (Option (Candidate α))}
    {decides : Exchange β → Except PollError α → Prop} {idle : β → Prop}
    (hrun : watch.Concludes awaited poll state run) (hsettles : poll.SettlesBy decides)
    (hreport : ∀ e reported, ¬decides e (.error (.timeout reported)))
    (hidle : ∀ e result, decides e result → ∃ answer, e.answer = .ok answer ∧ ¬idle answer)
    (hanswers : ∀ now state, ∀ c ∈ (poll.query.call now state).completion,
      ∀ answer, c.answer = .ok answer → idle answer) :
    ∃ reported, run.outcome = .error (.timeout reported) := by
  refine ((hrun.endsAtFirst hsettles).timeout_iff hreport).mpr fun e he result hdecides => ?_
  obtain ⟨answer, hanswer, hbusy⟩ := hidle e result hdecides
  exact hbusy (hrun.calls.forall_answers (fun given => ∀ answer, given = .ok answer → idle answer)
    (fun _ => nofun) hanswers e he answer hanswer)

-- When time has run out, the report gives the error of the last call if that failed, and all else
-- in it is about one object: the last that was seen under the key, or the closest of the last list
-- that was answered, and none if that list was empty, whatever the lists before it were.
theorem timeout_reports_one_object (watch : Watch α) (service : Service σ α) (clock : Clock)
    (state : σ) :
    (∀ run reported, watch.matching service clock state = .ok run →
      run.outcome = .error (.timeout reported) →
      run.EndsLate watch.config.timeout reported ∧
        reported.Describes watch.list (lastAnswer? run.exchanges)) ∧
    (∀ run reported, watch.firstMatching service clock state = .ok run →
      run.outcome = .error (.timeout reported) →
      run.EndsLate watch.config.timeout reported ∧
        ∃ closest, watch.list.Closest ((lastAnswer? run.exchanges).getD []) closest ∧
          reported.Describes watch.list (closest.map Prod.fst)) := by
  refine ⟨fun run reported hrun houtcome => ?_, fun run reported hrun houtcome => ?_⟩
  · obtain ⟨key, hconcludes⟩ := matching_concludes_of_timeout hrun houtcome
    have hsettles : (watch.matchingPoll service clock key).SettlesBy watch.list.Decides :=
      watch.judgeObject_settled_iff
    have hremembers := watch.judgeObject_remembers service clock key
    have hreport := watch.list.not_decides_timeout
    refine ⟨hconcludes.endsLate hsettles hreport houtcome, ?_⟩
    obtain ⟨_, extra, best, _, rfl, hrecalled⟩ :=
      hconcludes.reported hsettles hreport hremembers houtcome
    cases hrecalled with
    | unchanged hnone =>
        rw [hnone]
        exact report_describes extra nofun
    | answered hlast hrecalls =>
        obtain ⟨hskips, rfl⟩ := hrecalls
        rw [hlast]
        refine report_describes extra fun _ _ hbest => ?_
        cases hbest
        exact ⟨hskips, rfl⟩
  · obtain ⟨scope, hconcludes⟩ := firstMatching_concludes_of_timeout hrun houtcome
    have hsettles : (watch.firstMatchingPoll service clock scope).SettlesBy watch.list.Selects :=
      watch.judgeList_settled_iff
    have hremembers := watch.judgeList_remembers service clock scope
    have hreport := watch.list.not_selects_timeout
    refine ⟨hconcludes.endsLate hsettles hreport houtcome, ?_⟩
    obtain ⟨_, extra, best, _, rfl, hrecalled⟩ :=
      hconcludes.reported hsettles hreport hremembers houtcome
    refine ⟨best, ?_, ?_⟩
    · cases hrecalled with
      | unchanged hnone =>
          rw [hnone]
          exact .none
      | answered hlast hrecalls =>
          rw [hlast]
          exact hrecalls.closest
    · refine report_describes extra fun _ _ hbest => ?_
      cases hrecalled with
      | unchanged => cases hbest
      | answered hlast hrecalls =>
          cases hbest
          obtain ⟨hskips, hclosest⟩ := hrecalls
          cases hclosest
          exact ⟨hskips _ (by simp), rfl⟩

-- An item that does not hold the number awaited, and that cannot be had again.
def lostItem : Service Nat Item :=
  Script.service .milliseconds
    [⟨.zero, .objects [⟨"toolchain", "counter", 1⟩]⟩, ⟨.zero, .backend "unreachable"⟩]

theorem lostItem_get {key : Key}
    (hc : c ∈ ((getQuery lostItem key).call now calls).completion) (hitem : c.answer = .ok item) :
    item = ⟨"toolchain", "counter", 1⟩ := by
  obtain ⟨cue, hcue, hanswer⟩ := Script.exists_cue hc
  rw [hitem] at hanswer
  rcases List.mem_cons.mp hcue with rfl | hcue
  · cases hanswer
    rfl
  · cases List.mem_singleton.mp hcue
    cases hanswer

theorem lostItem_list {scope : Option String}
    (hc : c ∈ ((listQuery lostItem scope).call now calls).completion)
    (hitems : c.answer = .ok items) : items = [⟨"toolchain", "counter", 1⟩] := by
  obtain ⟨cue, hcue, hanswer⟩ := Script.exists_cue hc
  rw [hitems] at hanswer
  rcases List.mem_cons.mp hcue with rfl | hcue
  · cases hanswer
    rfl
  · cases List.mem_singleton.mp hcue
    cases hanswer

theorem timeout_reports_one_object_of_lost_item :
    let watch := awaitedItem 50 20
    (∃ run reported, watch.matching lostItem .milliseconds 0 = .ok run ∧
      run.outcome = .error (.timeout reported) ∧
      run.EndsLate watch.config.timeout reported ∧
        reported.Describes watch.list (lastAnswer? run.exchanges)) ∧
    (∃ run reported, watch.firstMatching lostItem .milliseconds 0 = .ok run ∧
      run.outcome = .error (.timeout reported) ∧
      run.EndsLate watch.config.timeout reported ∧
        ∃ closest, watch.list.Closest ((lastAnswer? run.exchanges).getD []) closest ∧
          reported.Describes watch.list (closest.map Prod.fst)) := by
  intro watch
  have hrange : watch.config.InRange := by decide
  have hskips : watch.list.Skips ⟨"toolchain", "counter", 1⟩ := ⟨by decide, by decide⟩
  constructor
  · obtain ⟨run, hrun, hconcludes⟩ := matching_concludes lostItem .milliseconds 0 rfl hrange
    obtain ⟨reported, houtcome⟩ := hconcludes.times_out watch.judgeObject_settled_iff
      watch.list.not_decides_timeout (fun _ _ => Checklist.Decides.exists_answer)
      fun _ _ _ hc _ hitem => lostItem_get hc hitem ▸ hskips
    exact ⟨run, reported, hrun, houtcome,
      (timeout_reports_one_object watch lostItem .milliseconds 0).1 run reported hrun houtcome⟩
  · obtain ⟨run, hrun, hconcludes⟩ := firstMatching_concludes lostItem .milliseconds 0 rfl hrange
    obtain ⟨reported, houtcome⟩ := hconcludes.times_out watch.judgeList_settled_iff
      watch.list.not_selects_timeout (fun _ _ => Checklist.Selects.exists_answer)
      fun _ _ _ hc _ hitems => lostItem_list hc hitems ▸ List.forall_mem_singleton.mpr hskips
    exact ⟨run, reported, hrun, houtcome,
      (timeout_reports_one_object watch lostItem .milliseconds 0).2 run reported hrun houtcome⟩

end Watch

end Eventually
