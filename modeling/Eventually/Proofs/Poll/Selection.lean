import Eventually.Proofs.Poll.Decisive

namespace Eventually

namespace Checklist

-- An object that a scan goes past: it fails, and for no other reason than its failures.
structure Skips (list : Checklist α) (obj : α) : Prop where
  fails : ¬list.passes obj
  viewed : list.viewError? obj = none

-- The first candidate that passes, where none before it could not be viewed.
def FirstMatch (list : Checklist α) (candidates : List α) (obj : α) : Prop :=
  ∃ before after, candidates = before ++ obj :: after ∧ (∀ other ∈ before, list.Skips other) ∧
    list.passes obj

-- The first view error on the first candidate that has one, where none before it passes.
def FirstUnviewable (list : Checklist α) (candidates : List α) (error : ViewError) : Prop :=
  ∃ before obj after, candidates = before ++ obj :: after ∧ (∀ other ∈ before, list.Skips other) ∧
    list.viewError? obj = some error

-- The candidate with the fewest failures and these failures. Those before it have more, those
-- after it no fewer.
inductive Closest (list : Checklist α) : List α → Option (α × List String) → Prop
  | none : Closest list [] none
  | some (hbefore : ∀ other ∈ before, (list.failures obj).length < (list.failures other).length)
      (hafter : ∀ other ∈ after, (list.failures obj).length ≤ (list.failures other).length) :
      Closest list (before ++ obj :: after) (some (obj, list.failures obj))

section

variable (list : Checklist α)

theorem decides_or_skips (obj : α) :
    list.passes obj ∨ (∃ error, list.viewError? obj = some error) ∨ list.Skips obj := by
  by_cases hpasses : list.passes obj
  · exact .inl hpasses
  · cases hview : list.viewError? obj with
    | some error => exact .inr (.inl ⟨error, rfl⟩)
    | none => exact .inr (.inr ⟨hpasses, hview⟩)

theorem evaluate_of_passes {obj : α} (hpasses : list.passes obj) : list.evaluate obj = .ok [] := by
  have hempty := (list.passes_eq_isEmpty obj).symm.trans hpasses
  rw [evaluate_eq, list.viewError?_eq_none_of_passes obj hpasses, List.isEmpty_iff.mp hempty]

theorem evaluate_of_skips {obj : α} (hskips : list.Skips obj) :
    list.evaluate obj = .ok (list.failures obj) ∧ (list.failures obj).isEmpty = false := by
  have hfails := hskips.fails
  rw [passes_eq_isEmpty, Bool.not_eq_true] at hfails
  exact ⟨by rw [evaluate_eq, hskips.viewed], hfails⟩

theorem scanFrom_of_passes (best : Option (α × List String)) {obj : α} (rest : List α)
    (hpasses : list.passes obj) : list.scanFrom best (obj :: rest) = .ok (.matched obj) := by
  simp only [scanFrom, list.evaluate_of_passes hpasses, List.isEmpty_nil, ↓reduceIte]

theorem scanFrom_of_viewError (best : Option (α × List String)) {obj : α} (rest : List α)
    (hview : list.viewError? obj = some error) :
    list.scanFrom best (obj :: rest) = .error error := by
  simp only [scanFrom, evaluate_eq, hview]

-- The candidate that leads after those that a scan has gone past.
def leader (best : Option (α × List String)) (candidates : List α) : Option (α × List String) :=
  candidates.foldl (fun best obj => Scan.closer best obj (list.failures obj)) best

theorem scanFrom_of_skips (best : Option (α × List String)) {before : List α} (rest : List α)
    (hskips : ∀ other ∈ before, list.Skips other) :
    list.scanFrom best (before ++ rest) = list.scanFrom (list.leader best before) rest := by
  induction before generalizing best with
  | nil => rfl
  | cons head before ih =>
      obtain ⟨hhead, hbefore⟩ := List.forall_mem_cons.mp hskips
      obtain ⟨hevaluate, hfailures⟩ := list.evaluate_of_skips hhead
      simp only [List.cons_append, scanFrom, hevaluate, hfailures, Bool.false_eq_true, ↓reduceIte]
      exact ih _ hbefore

-- A sequence of candidates is gone past, or it has a first one that ends the scan.
theorem all_skip_or_first (candidates : List α) :
    (∀ other ∈ candidates, list.Skips other) ∨ (∃ obj, list.FirstMatch candidates obj) ∨
      ∃ error, list.FirstUnviewable candidates error := by
  induction candidates with
  | nil => exact .inl (List.forall_mem_nil _)
  | cons head rest ih =>
      rcases list.decides_or_skips head with hpasses | ⟨error, hview⟩ | hskips
      · exact .inr (.inl ⟨head, [], rest, rfl, List.forall_mem_nil _, hpasses⟩)
      · exact .inr (.inr ⟨error, [], head, rest, rfl, List.forall_mem_nil _, hview⟩)
      · rcases ih with hrest | ⟨obj, before, after, rfl, hbefore, hpasses⟩ |
          ⟨error, before, obj, after, rfl, hbefore, hview⟩
        · exact .inl (List.forall_mem_cons.mpr ⟨hskips, hrest⟩)
        · exact .inr (.inl ⟨obj, head :: before, after, rfl,
            List.forall_mem_cons.mpr ⟨hskips, hbefore⟩, hpasses⟩)
        · exact .inr (.inr ⟨error, head :: before, obj, after, rfl,
            List.forall_mem_cons.mpr ⟨hskips, hbefore⟩, hview⟩)

end

section

variable {list : Checklist α} {candidates : List α}

theorem FirstMatch.scan_eq (hfirst : list.FirstMatch candidates obj) :
    list.scan candidates = .ok (.matched obj) := by
  obtain ⟨before, after, rfl, hbefore, hpasses⟩ := hfirst
  rw [scan, list.scanFrom_of_skips none _ hbefore, list.scanFrom_of_passes _ _ hpasses]

theorem FirstUnviewable.scan_eq (hfirst : list.FirstUnviewable candidates error) :
    list.scan candidates = .error error := by
  obtain ⟨before, obj, after, rfl, hbefore, hview⟩ := hfirst
  rw [scan, list.scanFrom_of_skips none _ hbefore, list.scanFrom_of_viewError _ _ hview]

theorem scan_of_skips (hskips : ∀ other ∈ candidates, list.Skips other) :
    list.scan candidates = .ok (.unmatched (list.leader none candidates)) := by
  have hscan := list.scanFrom_of_skips none [] hskips
  rw [List.append_nil] at hscan
  rw [scan, hscan]
  rfl

-- A scan has one of three results, each for its own kind of candidates.
theorem scan_eq_matched_iff : list.scan candidates = .ok (.matched obj) ↔
    list.FirstMatch candidates obj := by
  refine ⟨fun hscan => ?_, FirstMatch.scan_eq⟩
  rcases list.all_skip_or_first candidates with hskips | ⟨other, hfirst⟩ | ⟨error, hfirst⟩
  · cases (scan_of_skips hskips).symm.trans hscan
  · cases hfirst.scan_eq.symm.trans hscan
    exact hfirst
  · cases hfirst.scan_eq.symm.trans hscan

theorem scan_eq_error_iff : list.scan candidates = .error error ↔
    list.FirstUnviewable candidates error := by
  refine ⟨fun hscan => ?_, FirstUnviewable.scan_eq⟩
  rcases list.all_skip_or_first candidates with hskips | ⟨obj, hfirst⟩ | ⟨other, hfirst⟩
  · cases (scan_of_skips hskips).symm.trans hscan
  · cases hfirst.scan_eq.symm.trans hscan
  · cases hfirst.scan_eq.symm.trans hscan
    exact hfirst

-- A scan is prevented only by a candidate that cannot be viewed.
theorem scan_ne_error (hviews : ∀ obj ∈ candidates, list.viewError? obj = none)
    (error : ViewError) : list.scan candidates ≠ .error error := by
  intro hscan
  obtain ⟨before, obj, after, rfl, _, hview⟩ := scan_eq_error_iff.mp hscan
  have hnone := hviews obj (by simp)
  rw [hnone] at hview
  cases hview

-- Candidates of which one passes have a first match, if a scan of them ends well.
theorem exists_firstMatch (hviews : ∀ error, list.scan candidates ≠ .error error)
    (hpasses : ∃ obj ∈ candidates, list.passes obj) : ∃ obj, list.FirstMatch candidates obj := by
  rcases list.all_skip_or_first candidates with hskips | hfirst | ⟨error, hfirst⟩
  · obtain ⟨obj, hmem, hobj⟩ := hpasses
    exact absurd hobj (hskips obj hmem).fails
  · exact hfirst
  · exact absurd hfirst.scan_eq (hviews error)

-- The next candidate takes the lead only with fewer failures.
theorem Closest.concat (hclosest : list.Closest seen best) (obj : α) :
    list.Closest (seen ++ [obj]) (Scan.closer best obj (list.failures obj)) := by
  cases hclosest with
  | none => exact .some (List.forall_mem_nil _) (List.forall_mem_nil _)
  | @some before leading after hbefore hafter =>
      simp only [Scan.closer]
      split
      next hfewer =>
        refine .some (fun other hother => ?_) (List.forall_mem_nil _)
        rcases List.mem_append.mp hother with hmem | hmem
        · exact Nat.lt_trans hfewer (hbefore other hmem)
        · rcases List.mem_cons.mp hmem with rfl | hmem
          · exact hfewer
          · exact Nat.lt_of_lt_of_le hfewer (hafter other hmem)
      next hmore =>
        rw [List.append_assoc, List.cons_append]
        refine .some hbefore (List.forall_mem_append.mpr ⟨hafter, ?_⟩)
        exact List.forall_mem_singleton.mpr (Nat.not_lt.mp hmore)

theorem Closest.append (hclosest : list.Closest seen best) (candidates : List α) :
    list.Closest (seen ++ candidates) (list.leader best candidates) := by
  induction candidates generalizing seen best with
  | nil => rwa [List.append_nil]
  | cons head rest ih =>
      have hrest := ih (hclosest.concat head)
      rwa [List.append_assoc] at hrest

theorem leader_closest (candidates : List α) :
    list.Closest candidates (list.leader none candidates) :=
  Closest.none.append candidates

-- Two candidates cannot both be the closest: the earlier one would have fewer failures than the
-- later one, which has no more than the earlier.
theorem Closest.unique (hclosest : list.Closest candidates closest)
    (hother : list.Closest candidates other) : closest = other := by
  generalize hsame : candidates = same at hother
  cases hclosest with
  | none =>
      cases hother with
      | none => rfl
      | some => simp at hsame
  | @some before obj after hbefore hafter =>
      cases hother with
      | none => simp at hsame
      | @some before' obj' after' hbefore' hafter' =>
          rcases List.append_eq_append_iff.mp hsame with ⟨gap, rfl, hgap⟩ | ⟨gap, rfl, hgap⟩
          · cases gap with
            | nil =>
                cases hgap
                rfl
            | cons head gap =>
                cases hgap
                have hless := hbefore' obj (by simp)
                have hmore := hafter obj' (by simp)
                omega
          · cases gap with
            | nil =>
                cases hgap
                rfl
            | cons head gap =>
                cases hgap
                have hless := hbefore obj' (by simp)
                have hmore := hafter' obj (by simp)
                omega

theorem scan_eq_unmatched_iff : list.scan candidates = .ok (.unmatched closest) ↔
    (∀ other ∈ candidates, list.Skips other) ∧ list.Closest candidates closest := by
  constructor
  · intro hscan
    rcases list.all_skip_or_first candidates with hskips | ⟨obj, hfirst⟩ | ⟨error, hfirst⟩
    · cases (scan_of_skips hskips).symm.trans hscan
      exact ⟨hskips, leader_closest candidates⟩
    · cases hfirst.scan_eq.symm.trans hscan
    · cases hfirst.scan_eq.symm.trans hscan
  · rintro ⟨hskips, hclosest⟩
    rw [scan_of_skips hskips, hclosest.unique (leader_closest candidates)]

end

-- The answers that end the wait for some match, and the result of each.
inductive Selects (list : Checklist α) : Exchange (List α) → Except PollError α → Prop
  | matched (hanswer : e.answer = .ok candidates) (hfirst : list.FirstMatch candidates obj) :
      Selects list e (.ok obj)
  | unviewable (hanswer : e.answer = .ok candidates)
      (hfirst : list.FirstUnviewable candidates error) : Selects list e (.error (.view error))

theorem not_selects_timeout (list : Checklist α) (e : Exchange (List α)) (report : TimeoutReport) :
    ¬list.Selects e (.error (.timeout report)) := nofun

end Checklist

namespace Watch

theorem judgeList_settled_iff (watch : Watch α) (e : Exchange (List α))
    (memory : Option (Candidate α)) (result : Except PollError α) :
    watch.judgeList e memory = .settled result ↔ watch.list.Selects e result := by
  constructor
  · intro hjudge
    simp only [judgeList] at hjudge
    split at hjudge
    next => cases hjudge
    next candidates hanswer =>
      split at hjudge
      next error hscan =>
        cases hjudge
        exact .unviewable hanswer (Checklist.scan_eq_error_iff.mp hscan)
      next obj hscan =>
        cases hjudge
        exact .matched hanswer (Checklist.scan_eq_matched_iff.mp hscan)
      next => cases hjudge
  · intro hselects
    simp only [judgeList]
    cases hselects with
    | matched hanswer hfirst => simp only [hanswer, hfirst.scan_eq]
    | unviewable hanswer hfirst => simp only [hanswer, hfirst.scan_eq]

-- What a scan of candidates comes to, and the wait for some match, whatever the store answers and
-- whenever. It ends at the first list in which a candidate passes or cannot be viewed, candidates
-- after that one aside. A list that could not be had is asked for again, and time runs out exactly
-- if no list decides.
theorem firstMatching_endsAtFirst [Writable α] (watch : Watch α) (service : Service σ α)
    (clock : Clock) (state : σ) :
    (∀ candidates obj, watch.list.scan candidates = .ok (.matched obj) ↔
      watch.list.FirstMatch candidates obj) ∧
    (∀ candidates error, watch.list.scan candidates = .error error ↔
      watch.list.FirstUnviewable candidates error) ∧
    (∀ candidates closest, watch.list.scan candidates = .ok (.unmatched closest) ↔
      (∀ other ∈ candidates, watch.list.Skips other) ∧ watch.list.Closest candidates closest) ∧
    (∀ scope, watch.lookupScope = .ok scope → watch.config.InRange →
      ∃ run, watch.firstMatching service clock state = .ok run ∧
        (listQuery service scope).Calls clock watch.config.schedule .zero state run.exchanges
          run.state ∧
        run.EndsAtFirst watch.list.Selects ∧
        ((∃ report, run.outcome = .error (.timeout report)) ↔
          ∀ e ∈ run.exchanges, ∀ result, ¬watch.list.Selects e result) ∧
        (∀ report, run.outcome = .error (.timeout report) →
          ∃ before last extra, run.exchanges = before ++ [last, extra] ∧
            watch.config.timeout.nanos ≤ last.finish.nanos ∧ extra.start = last.finish)) := by
  refine ⟨fun _ _ => Checklist.scan_eq_matched_iff, fun _ _ => Checklist.scan_eq_error_iff,
    fun _ _ => Checklist.scan_eq_unmatched_iff, fun scope hscope hrange => ?_⟩
  obtain ⟨run, hrun, hconcludes⟩ := firstMatching_concludes service clock state hscope hrange
  have hsettles : (watch.firstMatchingPoll service clock scope).SettlesBy watch.list.Selects :=
    watch.judgeList_settled_iff
  have hends := hconcludes.endsAtFirst hsettles
  refine ⟨run, hrun, hconcludes.calls, hends, ?_, ?_⟩
  · exact hends.timeout_iff watch.list.not_selects_timeout
  · exact fun report houtcome =>
      hconcludes.extra_call hsettles watch.list.not_selects_timeout houtcome

-- Two lists that cannot be had, and then one whose second and third items pass.
theorem firstMatching_endsAtFirst_of_flaky_lists :
    let watch := awaitedItem 50 20
    let service := Script.service .milliseconds
      [⟨.zero, .backend "unreachable"⟩, ⟨.zero, .silence⟩,
        ⟨.ofMillis 5, .objects [⟨"toolchain", "counter", 1⟩, ⟨"toolchain", "timer", 3⟩,
          ⟨"toolchain", "gauge", 3⟩]⟩]
    watch.lookupScope = .ok none ∧ watch.config.InRange ∧
      ∃ run, watch.firstMatching service .milliseconds 0 = .ok run ∧
        (listQuery service none).Calls .milliseconds watch.config.schedule .zero 0 run.exchanges
          run.state ∧
        run.EndsAtFirst watch.list.Selects ∧
        ((∃ report, run.outcome = .error (.timeout report)) ↔
          ∀ e ∈ run.exchanges, ∀ result, ¬watch.list.Selects e result) ∧
        (∀ report, run.outcome = .error (.timeout report) →
          ∃ before last extra, run.exchanges = before ++ [last, extra] ∧
            watch.config.timeout.nanos ≤ last.finish.nanos ∧ extra.start = last.finish) :=
  ⟨rfl, by decide, (firstMatching_endsAtFirst _ _ _ _).2.2.2 none rfl (by decide)⟩

end Watch

end Eventually
