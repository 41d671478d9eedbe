import Eventually.Proofs.Poll.Absence
import Eventually.Proofs.Poll.Bounds
import Eventually.Proofs.Poll.Diagnosis
import Eventually.Proofs.Store.Faulty

namespace Eventually

namespace Schedule

variable (schedule : Schedule) (clock : Clock)

-- How long the pause after a call really lasts.
def pause : Nat := (clock.cut schedule.tick).nanos

-- How many pauses pass before the timeout is reached.
def pauses : Nat := schedule.timeout.nanos ⌈/⌉ schedule.pause clock

theorem pauses_le_iff (count : Nat) :
    schedule.pauses clock ≤ count ↔ schedule.timeout.nanos ≤ count * schedule.pause clock := by
  have hpos : 0 < schedule.pause clock := clock.cut_pos schedule.tick_pos
  rw [pauses, ceilDiv_le_iff_le_mul hpos, Nat.mul_comm]

end Schedule

-- The times of calls one pause apart, from a certain number of pauses on. Calls after the last
-- pause do not wait for another one.
def timetable (pause pauses first count : Nat) : List Nat :=
  (List.range' first count).map fun call => min call pauses * pause

theorem timetable_length (pause pauses first count : Nat) :
    (timetable pause pauses first count).length = count := by
  rw [timetable, List.length_map, List.length_range']

theorem timetable_cons (pause : Nat) {pauses first : Nat} (count : Nat) (hfirst : first ≤ pauses) :
    timetable pause pauses first (count + 1) =
      first * pause :: timetable pause pauses (first + 1) count := by
  rw [timetable, List.range'_succ, List.map_cons, Nat.min_eq_left hfirst]
  rfl

theorem timetable_concat (pause pauses first count : Nat) :
    timetable pause pauses first (count + 1) =
      timetable pause pauses first count ++ [min (first + count) pauses * pause] := by
  rw [timetable, List.range'_concat, List.map_append, Nat.one_mul]
  rfl

namespace Poll

-- A store that answers at once, and a clock whose pauses are whole multiples of its granule.
structure Paced (poll : Poll σ β ρ μ) (start : σ) : Prop where
  atOnce : poll.query.AtOnce (fun _ _ => True) start
  aligned : poll.clock.granule ∣ poll.schedule.pause poll.clock

variable {poll : Poll σ β ρ μ} {start : σ} {rounds : Rounds σ β ρ μ}

-- From one call to the next passes exactly one pause, and an undecided poll calls again as long as
-- not all pauses have passed.
theorem Trace.onSchedule (htrace : poll.Trace now state memory rounds) (hpaced : poll.Paced start)
    (hreaches : poll.query.Reaches start now state)
    (hnow : now.nanos = first * poll.schedule.pause poll.clock)
    (hfirst : first ≤ poll.schedule.pauses poll.clock) :
    ∃ more, rounds.exchanges.map (fun e => e.start.nanos) =
        timetable (poll.schedule.pause poll.clock) (poll.schedule.pauses poll.clock) first
          (more + 1) ∧
      rounds.finish.nanos = (first + more) * poll.schedule.pause poll.clock ∧
      first + more ≤ poll.schedule.pauses poll.clock ∧
      (∀ kept, rounds.verdict = .undecided kept →
        first + more = poll.schedule.pauses poll.clock) ∧
      poll.query.Reaches start rounds.finish rounds.state := by
  induction htrace generalizing first with
  | settled hstep =>
      obtain ⟨rfl, _, hnext⟩ := hpaced.atOnce.step hreaches hstep
      refine ⟨0, ?_, hnow, hfirst, nofun, hnext⟩
      rw [timetable_cons _ _ hfirst, List.map_singleton, hstep.start_eq, hnow]
      rfl
  | expired hstep _ hover =>
      obtain ⟨rfl, _, hnext⟩ := hpaced.atOnce.step hreaches hstep
      rw [hnow] at hover
      have hall := (poll.schedule.pauses_le_iff poll.clock first).mpr hover
      refine ⟨0, ?_, hnow, hfirst, fun _ _ => Nat.le_antisymm hfirst hall, hnext⟩
      rw [timetable_cons _ _ hfirst, List.map_singleton, hstep.start_eq, hnow]
      rfl
  | @again _ _ e _ _ _ rest hstep _ hleft _ ih =>
      obtain ⟨rfl, _, hnext⟩ := hpaced.atOnce.step hreaches hstep
      have hmore : first < poll.schedule.pauses poll.clock := by
        rw [← Nat.not_le, poll.schedule.pauses_le_iff, ← hnow]
        exact Nat.not_le.mpr hleft
      have hwake : (poll.clock.wake e.finish poll.schedule.tick).nanos =
          (first + 1) * poll.schedule.pause poll.clock := by
        have haligned : poll.clock.granule ∣ e.finish.nanos :=
          hnow ▸ Nat.dvd_mul_left_of_dvd hpaced.aligned first
        rw [poll.clock.wake_eq_of_dvd haligned hpaced.aligned, hnow, Nat.succ_mul]
        rfl
      obtain ⟨more, hstarts, hfinish, hle, hundecided, hlast⟩ :=
        ih (hnext.wait (poll.clock.le_wake ..)) hwake hmore
      rw [Nat.add_right_comm, Nat.add_assoc] at hfinish hle hundecided
      refine ⟨more + 1, ?_, hfinish, hle, hundecided, hlast⟩
      rw [Rounds.before, List.map_cons, hstarts, hstep.start_eq, hnow, timetable_cons _ _ hfirst]

theorem Trace.onSchedule_of_start (htrace : poll.Trace .zero start memory rounds)
    (hpaced : poll.Paced start) :
    ∃ more, rounds.exchanges.map (fun e => e.start.nanos) =
        timetable (poll.schedule.pause poll.clock) (poll.schedule.pauses poll.clock) 0
          (more + 1) ∧
      rounds.finish.nanos = more * poll.schedule.pause poll.clock ∧
      more ≤ poll.schedule.pauses poll.clock ∧
      (∀ kept, rounds.verdict = .undecided kept → more = poll.schedule.pauses poll.clock) ∧
      poll.query.Reaches start rounds.finish rounds.state := by
  have hzero : Duration.zero.nanos = 0 * poll.schedule.pause poll.clock := (Nat.zero_mul _).symm
  simpa only [Nat.zero_add] using htrace.onSchedule hpaced .start hzero (Nat.zero_le _)

-- The call after the rounds is made when the last of them is.
theorem Trace.extra_onSchedule (htrace : poll.Trace .zero start memory rounds)
    (hpaced : poll.Paced start) (hverdict : rounds.verdict = .undecided kept)
    (hstep : poll.query.Step poll.clock poll.schedule rounds.finish rounds.state last next) :
    (rounds.exchanges ++ [last]).map (fun e => e.start.nanos) =
        timetable (poll.schedule.pause poll.clock) (poll.schedule.pauses poll.clock) 0
          (poll.schedule.pauses poll.clock + 2) ∧
      last.finish.nanos = poll.schedule.pauses poll.clock * poll.schedule.pause poll.clock := by
  obtain ⟨more, hstarts, hfinish, _, hundecided, hreaches⟩ := htrace.onSchedule_of_start hpaced
  obtain ⟨hlast, _, _⟩ := hpaced.atOnce.step hreaches hstep
  rw [hundecided kept hverdict] at hstarts hfinish
  refine ⟨?_, hlast ▸ hfinish⟩
  rw [List.map_append, hstarts, List.map_singleton, hstep.start_eq, hfinish,
    timetable_concat _ _ _ (poll.schedule.pauses poll.clock + 1), Nat.min_eq_right (by omega)]

end Poll

-- A run whose calls are one pause apart, but for one that may come at once after the last pause.
-- When time runs out all these calls have been made.
structure Run.OnSchedule (run : Run σ β ρ) (pause pauses calls : Nat) : Prop where
  starts_eq : run.exchanges.map (fun e => e.start.nanos) =
    timetable pause pauses 0 run.exchanges.length
  length_pos : 0 < run.exchanges.length
  length_le : run.exchanges.length ≤ calls
  finish_eq : run.finish.nanos = min (run.exchanges.length - 1) pauses * pause
  of_timeout : ∀ reported, run.outcome = .error (.timeout reported) →
    reported.elapsed = run.finish ∧ run.finish.nanos = pauses * pause ∧
      run.exchanges.length = calls

theorem Run.OnSchedule.of_starts {run : Run σ β ρ} {pause pauses calls more : Nat}
    (hstarts : run.exchanges.map (fun e => e.start.nanos) = timetable pause pauses 0 (more + 1))
    (hfinish : run.finish.nanos = min more pauses * pause) (hmore : more < calls)
    (htimeout : ∀ reported, run.outcome = .error (.timeout reported) →
      reported.elapsed = run.finish ∧ pauses ≤ more ∧ more + 1 = calls) :
    run.OnSchedule pause pauses calls := by
  have hlength : run.exchanges.length = more + 1 := by
    simpa only [List.length_map, timetable_length] using congrArg List.length hstarts
  refine ⟨by rw [hlength, hstarts], by omega, by omega, by rw [hlength, hfinish]; rfl, ?_⟩
  intro reported houtcome
  obtain ⟨helapsed, hall, hcalls⟩ := htimeout reported houtcome
  exact ⟨helapsed, by rw [hfinish, Nat.min_eq_right hall], by rw [hlength, hcalls]⟩

-- A run that is over with its rounds.
theorem Poll.Trace.settled_onSchedule {poll : Poll σ β ρ μ} {rounds : Rounds σ β ρ μ} {calls : Nat}
    (htrace : poll.Trace .zero start memory rounds) (hpaced : poll.Paced start)
    (hjudge : ∀ e memory reported, poll.judge e memory ≠ .settled (.error (.timeout reported)))
    (hverdict : rounds.verdict = .settled outcome)
    (hcalls : poll.schedule.pauses poll.clock < calls) :
    Run.OnSchedule ⟨rounds.exchanges, rounds.finish, rounds.state, outcome⟩
      (poll.schedule.pause poll.clock) (poll.schedule.pauses poll.clock) calls := by
  obtain ⟨more, hstarts, hfinish, hmore, _⟩ := htrace.onSchedule_of_start hpaced
  refine .of_starts hstarts ?_ (Nat.lt_of_le_of_lt hmore hcalls) fun reported houtcome => ?_
  · rw [hfinish, Nat.min_eq_left hmore]
  · exact absurd houtcome (htrace.result_ne_timeout hjudge hverdict reported)

namespace Watch

theorem Concludes.onSchedule [Writable α] {watch : Watch α}
    {poll : Poll σ β α (Option (Candidate α))} (hrun : watch.Concludes awaited poll state run)
    (hpaced : poll.Paced state)
    (hjudge : ∀ e memory reported, poll.judge e memory ≠ .settled (.error (.timeout reported))) :
    run.OnSchedule (poll.schedule.pause poll.clock) (poll.schedule.pauses poll.clock)
      (poll.schedule.pauses poll.clock + 2) := by
  cases hrun with
  | early htrace hverdict =>
      exact htrace.settled_onSchedule hpaced hjudge hverdict (by omega)
  | late htrace hverdict hstep hsettled =>
      obtain ⟨hstarts, hfinish⟩ := htrace.extra_onSchedule hpaced hverdict hstep
      refine .of_starts hstarts (by rw [hfinish, Nat.min_eq_right (Nat.le_succ _)])
        (Nat.lt_succ_self _) fun reported houtcome => ?_
      cases houtcome
      exact absurd hsettled (hjudge _ _ reported)
  | timedOut htrace hverdict hstep =>
      obtain ⟨hstarts, hfinish⟩ := htrace.extra_onSchedule hpaced hverdict hstep
      refine .of_starts hstarts (by rw [hfinish, Nat.min_eq_right (Nat.le_succ _)])
        (Nat.lt_succ_self _) fun reported houtcome => ?_
      cases houtcome
      exact ⟨rfl, Nat.le_succ _, rfl⟩

theorem Ceases.onSchedule {key : Key} {poll : Poll σ α Unit Unit}
    (hrun : Ceases awaited key poll state run) (hpaced : poll.Paced state)
    (hjudge : ∀ e memory reported, poll.judge e memory ≠ .settled (.error (.timeout reported))) :
    run.OnSchedule (poll.schedule.pause poll.clock) (poll.schedule.pauses poll.clock)
      (poll.schedule.pauses poll.clock + 1) := by
  cases hrun with
  | early htrace hverdict =>
      exact htrace.settled_onSchedule hpaced hjudge hverdict (by omega)
  | timedOut htrace hverdict =>
      obtain ⟨more, hstarts, hfinish, hmore, hundecided, _⟩ := htrace.onSchedule_of_start hpaced
      have hall := hundecided () hverdict
      refine .of_starts hstarts (by rw [hfinish, Nat.min_eq_left hmore]) (by omega)
        fun reported houtcome => ?_
      cases houtcome
      exact ⟨rfl, Nat.le_of_eq hall.symm, congrArg (· + 1) hall⟩

end Watch

-- How a run fares whose store fails its first calls and then always has what is awaited. It is late
-- by a pause for each failure, and if there are too many of them it knows of the last one only.
structure Run.Endures (run : Run σ β ρ) (pause pauses faults : Nat) (failure : StoreError) :
    Prop where
  succeeds_iff : (∃ result, run.outcome = .ok result) ↔ faults ≤ pauses + 1
  finish_eq : run.finish.nanos = min faults pauses * pause
  gives_up : pauses + 1 < faults → ∃ reported, run.outcome = .error (.timeout reported) ∧
    reported.lastError = some failure.message ∧ reported.failures = [] ∧
      reported.explanation = none

section Faults

variable {operation : String} {faults : Nat} {good : Duration → Except StoreError β → Prop}
  {failed : List (Exchange β)}

-- The first call that is served is the last one if its answer decides.
theorem Run.EndsAtFirst.of_served {decides : Exchange β → Except PollError ρ → Prop}
    {run : Run σ β ρ} (hends : run.EndsAtFirst decides)
    (hsplit : Faulty.Split operation faults good run.exchanges failed (e :: after))
    (hdecides : decides e result) :
    decides e run.outcome ∧ run.exchanges.length = faults + 1 := by
  have hexchanges := hsplit.exchanges_eq
  have hlength := hsplit.failed_length
  have hmem : e ∈ run.exchanges := by simp [hexchanges]
  have hcount : run.exchanges.length = failed.length + 1 := by
    simp [hexchanges, hends.nothing_after hexchanges hdecides]
  exact ⟨(hends.of_decides hmem hdecides).1, by omega⟩

namespace Watch

-- A run of failures alone knows of the last one and of no object.
theorem Concludes.of_unserved [Writable α] {watch : Watch α}
    {poll : Poll σ β α (Option (Candidate α))} {decides : Exchange β → Except PollError α → Prop}
    {recalls : β → Option (Candidate α) → Prop} (hrun : watch.Concludes awaited poll state run)
    (hsplit : Faulty.Split operation faults good run.exchanges failed [])
    (hsettles : poll.SettlesBy decides)
    (hreport : ∀ e reported, ¬decides e (.error (.timeout reported)))
    (hremembers : poll.Remembers recalls)
    (hanswered : ∀ e result, decides e result → ∃ answer, e.answer = .ok answer) :
    ∃ reported, run.outcome = .error (.timeout reported) ∧
      reported.lastError = some (Faulty.injected operation).message ∧ reported.failures = [] ∧
      reported.explanation = none := by
  have hfailed : ∀ e ∈ run.exchanges, e.answer = .error (Faulty.injected operation) := by
    rw [hsplit.exchanges_eq, List.append_nil]
    exact hsplit.failed_answer
  have hnone : ∀ e ∈ run.exchanges, ∀ result, ¬decides e result := by
    intro e he result hdecides
    obtain ⟨answer, hanswer⟩ := hanswered e result hdecides
    cases hanswer.symm.trans (hfailed e he)
  obtain ⟨reported, houtcome⟩ := ((hrun.endsAtFirst hsettles).timeout_iff hreport).mpr hnone
  obtain ⟨before, extra, best, hextra, rfl, hrecalled⟩ :=
    hrun.reported hsettles hreport hremembers houtcome
  have hanswer := hfailed extra (by simp [hextra])
  have hbest : best = none := by
    cases hrecalled with
    | unchanged => rfl
    | answered hlast =>
        cases (lastAnswer?_eq_none fun e he => ⟨_, hfailed e he⟩).symm.trans hlast
  subst hbest
  exact ⟨_, houtcome, by simp only [report, lastErrorText, hanswer], rfl, rfl⟩

variable {clock : Clock} {query : Query σ β} {hidden : σ} {pause pauses : Nat}

theorem Concludes.endures [Writable α] {watch : Watch α}
    {poll : Poll (Faulty σ) β α (Option (Candidate α))}
    {decides : Exchange β → Except PollError α → Prop} {recalls : β → Option (Candidate α) → Prop}
    (hrun : watch.Concludes awaited poll ⟨hidden, faults⟩ run)
    (hquery : poll.query = Faulty.front clock operation query)
    (hschedule : run.OnSchedule pause pauses (pauses + 2)) (hsettles : poll.SettlesBy decides)
    (hreport : ∀ e reported, ¬decides e (.error (.timeout reported)))
    (hremembers : poll.Remembers recalls)
    (hanswered : ∀ e result, decides e result → ∃ answer, e.answer = .ok answer)
    (hprompt : query.AtOnce good hidden)
    (hgood : ∀ e, good e.finish e.answer → ∃ obj, decides e (.ok obj)) :
    run.Endures pause pauses faults (Faulty.injected operation) := by
  have hcalls := hrun.calls
  rw [hquery] at hcalls
  obtain ⟨failed, served, hsplit⟩ := Faulty.calls_split_of_start hprompt hcalls
  cases served with
  | cons e after =>
      obtain ⟨obj, hobj⟩ := hgood e (hsplit.served_answer e List.mem_cons_self)
      obtain ⟨hdecides, hcount⟩ := (hrun.endsAtFirst hsettles).of_served hsplit hobj
      have hfew := hschedule.length_le
      refine ⟨⟨fun _ => by omega, fun _ => ⟨obj, ?_⟩⟩, ?_, fun _ => by omega⟩
      · exact hsettles.unique none hdecides hobj
      · rw [hschedule.finish_eq, hcount, Nat.add_sub_cancel]
  | nil =>
      obtain ⟨reported, houtcome, hreported⟩ :=
        hrun.of_unserved hsplit hsettles hreport hremembers hanswered
      obtain ⟨_, hfinish, hcount⟩ := hschedule.of_timeout reported houtcome
      have hmany : pauses + 2 ≤ faults := by
        have hlength := hsplit.failed_length
        have hall := congrArg List.length hsplit.exchanges_eq
        simp only [List.append_nil] at hall hlength
        omega
      refine ⟨⟨?_, fun _ => by omega⟩, ?_, fun _ => ⟨reported, houtcome, hreported⟩⟩
      · rintro ⟨obj, hobj⟩
        cases houtcome.symm.trans hobj
      · rw [hfinish, Nat.min_eq_right (by omega)]

-- A wait for a deletion is over with its first call if that is not answered with an object.
theorem Ceases.ends_at_once {key : Key} {poll : Poll σ α Unit Unit} {pause pauses tries : Nat}
    (hrun : Ceases awaited key poll state run) (hschedule : run.OnSchedule pause pauses tries)
    (hsettles : poll.SettlesBy (DecidesAbsence awaited))
    (hexchanges : run.exchanges = e :: after) (hdecides : DecidesAbsence awaited e result) :
    run.finish = .zero ∧ e.finish = .zero ∧ run.outcome = result := by
  have hends := hrun.endsAtFirst hsettles
  have hsplit : run.exchanges = [] ++ e :: after := hexchanges
  obtain ⟨houtcome, hlast⟩ := hends.of_decides (hexchanges ▸ List.mem_cons_self) hdecides
  have hzero : run.finish = .zero := by
    have hfinish := hschedule.finish_eq
    rw [hexchanges, hends.nothing_after hsplit hdecides, List.length_singleton, Nat.sub_self,
      Nat.zero_min, Nat.zero_mul] at hfinish
    exact congrArg Duration.mk hfinish
  exact ⟨hzero, hlast.symm.trans hzero, hsettles.unique () houtcome hdecides⟩

-- A single failure is enough to end a wait for a deletion.
theorem Ceases.of_faults {key : Key} {query : Query σ α} {poll : Poll (Faulty σ) α Unit Unit}
    {pause pauses tries : Nat} (hrun : Ceases awaited key poll ⟨hidden, faults⟩ run)
    (hquery : poll.query = Faulty.front clock operation query)
    (hschedule : run.OnSchedule pause pauses tries)
    (hsettles : poll.SettlesBy (DecidesAbsence awaited))
    (hprompt : query.AtOnce (fun _ answer => ∃ missing, answer = .error (.notFound missing))
      hidden) :
    run.finish = .zero ∧ run.outcome =
      if faults = 0 then .ok ()
      else .error (.store awaited .zero (Faulty.injected operation)) := by
  have hcalls := hrun.calls
  rw [hquery] at hcalls
  obtain ⟨failed, served, hsplit⟩ := Faulty.calls_split_of_start hprompt hcalls
  have hexchanges := hsplit.exchanges_eq
  have hlength := hsplit.failed_length
  cases failed with
  | nil =>
      have hpos := hschedule.length_pos
      have hnone : faults = 0 := by
        simp only [List.length_nil] at hlength
        omega
      cases served with
      | nil => simp [hexchanges] at hpos
      | cons e after =>
          obtain ⟨missing, hanswer⟩ := hsplit.served_answer e List.mem_cons_self
          obtain ⟨hfinish, _, houtcome⟩ :=
            hrun.ends_at_once hschedule hsettles hexchanges (.gone hanswer)
          exact ⟨hfinish, houtcome.trans (if_pos hnone).symm⟩
  | cons e after =>
      have hsome : faults ≠ 0 := by
        simp only [List.length_cons] at hlength
        omega
      obtain ⟨hfinish, hfirst, houtcome⟩ := hrun.ends_at_once hschedule hsettles hexchanges
        (.failed (hsplit.failed_answer e List.mem_cons_self))
      rw [hfirst] at houtcome
      exact ⟨hfinish, houtcome.trans (if_neg hsome).symm⟩

end Watch

end Faults

namespace Watch

-- The calls to a store that answers at once follow the clock: one at the start, one after each
-- pause until the timeout is reached, and for a match one more at that moment. A pause lasts a tick,
-- unless the clock cuts such a sleep short. Failures of the store cost a pause each.
theorem runs_onSchedule [Writable α] (watch : Watch α) (service : Service σ α) (clock : Clock)
    (state : σ) (hrange : watch.config.InRange)
    (htick : clock.granule ∣ watch.config.effectiveTick.nanos)
    (hlongest : ∀ longest ∈ clock.longest, clock.granule ∣ longest.nanos) :
    let pause := (clock.cut watch.config.effectiveTick).nanos
    let pauses := watch.config.timeout.nanos ⌈/⌉ pause
    (∀ key, watch.lookupKey = .ok key →
      (getQuery service key).AtOnce (fun _ _ => True) state →
      (∃ run, watch.matching service clock state = .ok run ∧
        run.OnSchedule pause pauses (pauses + 2)) ∧
      ∃ run, watch.deleted service clock state = .ok run ∧
        run.OnSchedule pause pauses (pauses + 1)) ∧
    (∀ scope, watch.lookupScope = .ok scope →
      (listQuery service scope).AtOnce (fun _ _ => True) state →
      ∃ run, watch.firstMatching service clock state = .ok run ∧
        run.OnSchedule pause pauses (pauses + 2)) ∧
    (∀ key faults, watch.lookupKey = .ok key →
      (getQuery service key).AtOnce (fun _ answer => ∃ obj, answer = .ok obj ∧
        watch.list.passes obj) state →
      ∃ run, watch.matching (Faulty.service clock .zero service) clock ⟨state, faults⟩ = .ok run ∧
        run.Endures pause pauses faults (Faulty.injected "get")) ∧
    (∀ scope faults, watch.lookupScope = .ok scope →
      (listQuery service scope).AtOnce (fun _ answer => ∃ candidates obj, answer = .ok candidates ∧
        watch.list.FirstMatch candidates obj) state →
      ∃ run, watch.firstMatching (Faulty.service clock .zero service) clock ⟨state, faults⟩ =
          .ok run ∧
        run.Endures pause pauses faults (Faulty.injected "list")) ∧
    (∀ key faults, watch.lookupKey = .ok key →
      (getQuery service key).AtOnce (fun _ answer => ∃ missing, answer = .error (.notFound missing))
        state →
      ∃ run, watch.deleted (Faulty.service clock .zero service) clock ⟨state, faults⟩ = .ok run ∧
        run.finish = .zero ∧ run.outcome =
          if faults = 0 then .ok ()
          else .error (.store (watch.awaitedDeletion key) .zero (Faulty.injected "get"))) := by
  intro pause pauses
  have haligned : clock.granule ∣ pause := clock.dvd_cut htick hlongest
  refine ⟨?_, ?_, ?_, ?_, ?_⟩
  · intro key hkey hprompt
    obtain ⟨run, hrun, hconcludes⟩ := matching_concludes service clock state hkey hrange
    obtain ⟨ceased, hceased, hceases⟩ := deleted_ceases service clock state hkey hrange
    exact ⟨⟨run, hrun, hconcludes.onSchedule ⟨hprompt, haligned⟩ watch.judgeObject_ne_timeout⟩,
      ceased, hceased, hceases.onSchedule ⟨hprompt, haligned⟩ (judgeAbsence_ne_timeout _)⟩
  · intro scope hscope hprompt
    obtain ⟨run, hrun, hconcludes⟩ := firstMatching_concludes service clock state hscope hrange
    exact ⟨run, hrun, hconcludes.onSchedule ⟨hprompt, haligned⟩ watch.judgeList_ne_timeout⟩
  · intro key faults hkey hprompt
    obtain ⟨run, hrun, hconcludes⟩ :=
      matching_concludes (Faulty.service clock .zero service) clock ⟨state, faults⟩ hkey hrange
    refine ⟨run, hrun, hconcludes.endures rfl ?_ watch.judgeObject_settled_iff
      watch.list.not_decides_timeout (watch.judgeObject_remembers _ clock key) ?_ hprompt ?_⟩
    · exact hconcludes.onSchedule ⟨Faulty.front_atOnce hprompt faults, haligned⟩
        watch.judgeObject_ne_timeout
    · intro e result hdecides
      obtain ⟨obj, hanswer, _⟩ := hdecides.exists_answer
      exact ⟨obj, hanswer⟩
    · rintro e ⟨obj, hanswer, hpasses⟩
      exact ⟨obj, .passed hanswer hpasses⟩
  · intro scope faults hscope hprompt
    obtain ⟨run, hrun, hconcludes⟩ :=
      firstMatching_concludes (Faulty.service clock .zero service) clock ⟨state, faults⟩ hscope
        hrange
    refine ⟨run, hrun, hconcludes.endures rfl ?_ watch.judgeList_settled_iff
      watch.list.not_selects_timeout (watch.judgeList_remembers _ clock scope) ?_ hprompt ?_⟩
    · exact hconcludes.onSchedule ⟨Faulty.front_atOnce hprompt faults, haligned⟩
        watch.judgeList_ne_timeout
    · intro e result hselects
      obtain ⟨candidates, hanswer, _⟩ := hselects.exists_answer
      exact ⟨candidates, hanswer⟩
    · rintro e ⟨candidates, obj, hanswer, hfirst⟩
      exact ⟨obj, .matched hanswer hfirst⟩
  · intro key faults hkey hprompt
    obtain ⟨run, hrun, hceases⟩ :=
      deleted_ceases (Faulty.service clock .zero service) clock ⟨state, faults⟩ hkey hrange
    have hschedule := hceases.onSchedule ⟨Faulty.front_atOnce hprompt faults, haligned⟩
      (judgeAbsence_ne_timeout _)
    exact ⟨run, hrun, hceases.of_faults rfl hschedule (judgeAbsence_settled_iff _) hprompt⟩

-- Five failures are as many as four pauses leave room for, and six are too many.
theorem runs_onSchedule_of_steady_stores :
    let watch := awaitedItem 100 30
    let key := Key.inScope "toolchain" "counter"
    let present := Script.steady (.objects [⟨"toolchain", "counter", 3⟩])
    let absent := Script.steady (.notFound none)
    let pause := (Duration.ofMillis 30).nanos
    watch.config.InRange ∧ Clock.milliseconds.granule ∣ watch.config.effectiveTick.nanos ∧
      (∀ longest ∈ Clock.milliseconds.longest, Clock.milliseconds.granule ∣ longest.nanos) ∧
      (∃ run, watch.matching absent .milliseconds 0 = .ok run ∧ run.OnSchedule pause 4 6) ∧
      (∃ run, watch.deleted present .milliseconds 0 = .ok run ∧ run.OnSchedule pause 4 5) ∧
      (∃ run, watch.firstMatching absent .milliseconds 0 = .ok run ∧ run.OnSchedule pause 4 6) ∧
      (∃ run, watch.matching (Faulty.service .milliseconds .zero present) .milliseconds ⟨0, 6⟩ =
          .ok run ∧ run.Endures pause 4 6 (Faulty.injected "get")) ∧
      (∃ run, watch.firstMatching (Faulty.service .milliseconds .zero present) .milliseconds
          ⟨0, 5⟩ = .ok run ∧ run.Endures pause 4 5 (Faulty.injected "list")) ∧
      ∃ run, watch.deleted (Faulty.service .milliseconds .zero absent) .milliseconds ⟨0, 1⟩ =
          .ok run ∧ run.finish = .zero ∧ run.outcome =
            .error (.store (watch.awaitedDeletion key) .zero (Faulty.injected "get")) := by
  intro watch key present absent pause
  have hrange : watch.config.InRange := by decide
  have htick : Clock.milliseconds.granule ∣ watch.config.effectiveTick.nanos := by decide
  have hlongest : ∀ longest ∈ Clock.milliseconds.longest,
      Clock.milliseconds.granule ∣ longest.nanos := by
    rintro _ ⟨⟩
    decide
  have hfirst : watch.list.FirstMatch [⟨"toolchain", "counter", 3⟩]
      ⟨"toolchain", "counter", 3⟩ := ⟨[], [], rfl, List.forall_mem_nil _, by decide⟩
  have hpause : (Clock.milliseconds.cut watch.config.effectiveTick).nanos = pause := by decide
  have hpauses : watch.config.timeout.nanos ⌈/⌉ pause = 4 := by decide
  have hpresent := runs_onSchedule watch present .milliseconds 0 hrange htick hlongest
  have habsent := runs_onSchedule watch absent .milliseconds 0 hrange htick hlongest
  simp only [hpause, hpauses] at hpresent habsent
  obtain ⟨hpresentGet, _, hfound, hfoundFirst, _⟩ := hpresent
  obtain ⟨habsentGet, habsentList, _, _, hgone⟩ := habsent
  refine ⟨hrange, htick, hlongest, ?_, ?_, ?_, ?_, ?_, ?_⟩
  · exact (habsentGet key rfl (Script.steady_atOnce rfl rfl (fun _ => trivial) 0)).1
  · exact (hpresentGet key rfl (Script.steady_atOnce rfl rfl (fun _ => trivial) 0)).2
  · exact habsentList none rfl (Script.steady_atOnce rfl rfl (fun _ => trivial) 0)
  · exact hfound key 6 rfl (Script.steady_atOnce rfl rfl (fun _ => ⟨_, rfl, by decide⟩) 0)
  · exact hfoundFirst none 5 rfl (Script.steady_atOnce rfl rfl (fun _ => ⟨_, _, rfl, hfirst⟩) 0)
  · exact hgone key 1 rfl (Script.steady_atOnce rfl rfl (fun _ => ⟨_, rfl⟩) 0)

-- A tick of a second more than the longest sleep. The only pause ends a second early.
theorem long_tick_cut_short :
    let watch := awaitedItem 1000 946080001000
    let service := Script.steady (.objects [⟨"toolchain", "counter", 1⟩])
    let key := Key.inScope "toolchain" "counter"
    let tick := watch.config.effectiveTick.nanos
    watch.lookupKey = .ok key ∧ watch.config.InRange ∧ Clock.milliseconds.granule ∣ tick ∧
      (getQuery service key).AtOnce (fun _ _ => True) 0 ∧
      ∃ run reported, watch.matching service .milliseconds 0 = .ok run ∧
        run.outcome = .error (.timeout reported) ∧ reported.elapsed = .ofSeconds 946080000 ∧
        reported.elapsed.nanos ≠ watch.config.timeout.nanos ⌈/⌉ tick * tick := by
  intro watch service key tick
  have hrange : watch.config.InRange := by decide
  have hprompt : (getQuery service key).AtOnce (fun _ _ => True) 0 :=
    Script.steady_atOnce rfl rfl (fun _ => trivial) 0
  have hskips : watch.list.Skips ⟨"toolchain", "counter", 1⟩ := ⟨by decide, by decide⟩
  obtain ⟨run, hrun, hconcludes⟩ := matching_concludes service .milliseconds 0 rfl hrange
  obtain ⟨reported, houtcome⟩ := hconcludes.times_out watch.judgeObject_settled_iff
    watch.list.not_decides_timeout (fun _ _ => Checklist.Decides.exists_answer) (by
      intro now calls c hc obj hobj
      cases (Script.steady_completion rfl rfl now calls).symm.trans hc
      cases hobj
      exact hskips)
  obtain ⟨helapsed, hfinish, _⟩ := (hconcludes.onSchedule ⟨hprompt, by decide⟩
    watch.judgeObject_ne_timeout).of_timeout reported houtcome
  have hnanos : run.finish.nanos = (Duration.ofSeconds 946080000).nanos :=
    hfinish.trans (by decide)
  have hreported : reported.elapsed = .ofSeconds 946080000 :=
    helapsed.trans (congrArg Duration.mk hnanos)
  refine ⟨rfl, hrange, by decide, hprompt, run, reported, hrun, houtcome, hreported, ?_⟩
  rw [hreported]
  decide

end Watch

end Eventually
