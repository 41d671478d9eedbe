import Eventually.Proofs.Poll.Decisive
import Eventually.Proofs.Poll.Persistence

namespace Eventually

-- An answer without the object that it may be.
def outline (answer : Except StoreError β) : Except StoreError Unit := answer.map fun _ => ()

theorem outline_cases {answer : Except StoreError β} {other : Except StoreError γ}
    (houtline : outline other = outline answer) :
    (∃ obj twin, answer = .ok obj ∧ other = .ok twin) ∨
      ∃ error, answer = .error error ∧ other = .error error := by
  cases answer with
  | ok obj =>
      cases other with
      | ok twin => exact .inl ⟨obj, twin, rfl, rfl⟩
      | error => cases houtline
  | error error =>
      cases other with
      | ok => cases houtline
      | error =>
          cases houtline
          exact .inr ⟨error, rfl, rfl⟩

-- A call without the object that it may have brought.
def Exchange.outline (e : Exchange β) : Exchange Unit :=
  ⟨e.start, e.budget, e.finish, Eventually.outline e.answer⟩

-- Completions that come after the same time and differ at most in their objects, and that leave
-- states which stand for one another.
structure Completion.Resembles (alike : σ → τ → Prop) (c : Completion σ β)
    (other : Completion τ γ) : Prop where
  latency_eq : other.latency = c.latency
  outline_eq : outline other.answer = outline c.answer
  alike : alike c.state other.state

namespace Query

-- Two stores that behave alike but for the objects that they hand out.
structure Resembles (query : Query σ β) (other : Query τ γ) (alike : σ → τ → Prop) : Prop where
  late_eq : other.late = query.late
  completes : ∀ now state twin, alike state twin → Option.Rel (Completion.Resembles alike)
    (query.call now state).completion (other.call now twin).completion
  abandoned : ∀ now state twin waited, alike state twin →
    alike ((query.call now state).abandoned waited) ((other.call now twin).abandoned waited)

theorem Resembles.exchange {query : Query σ β} {other : Query τ γ} {alike : σ → τ → Prop}
    (hresembles : query.Resembles other alike) (clock : Clock) (schedule : Schedule)
    (now : Duration) (halike : alike state twin) :
    (other.exchange clock schedule now twin).1.outline =
        (query.exchange clock schedule now state).1.outline ∧
      alike (query.exchange clock schedule now state).2
        (other.exchange clock schedule now twin).2 := by
  have hcompletes := hresembles.completes now state twin halike
  have habandoned := fun waited => hresembles.abandoned now state twin waited halike
  simp only [Query.exchange, giveUp, hresembles.late_eq]
  cases hcompletion : (query.call now state).completion with
  | none =>
      rw [hcompletion] at hcompletes
      cases hother : (other.call now twin).completion with
      | none => exact ⟨rfl, habandoned _⟩
      | some => rw [hother] at hcompletes; cases hcompletes
  | some c =>
      rw [hcompletion] at hcompletes
      cases hother : (other.call now twin).completion with
      | none => rw [hother] at hcompletes; cases hcompletes
      | some d =>
          rw [hother] at hcompletes
          cases hcompletes with
          | some hc =>
              simp only [hc.latency_eq]
              split
              · refine ⟨?_, hc.alike⟩
                simp only [Exchange.outline, hc.outline_eq]
              · exact ⟨rfl, habandoned _⟩

end Query

-- Rounds that differ at most in the objects that were handed out.
structure Rounds.Resembles (alike : σ → τ → Prop) (rounds : Rounds σ β ρ μ)
    (other : Rounds τ γ ρ μ) : Prop where
  exchanges_eq : other.exchanges.map Exchange.outline = rounds.exchanges.map Exchange.outline
  finish_eq : other.finish = rounds.finish
  alike : alike rounds.state other.state
  verdict_eq : other.verdict = rounds.verdict

namespace Poll

-- Two polls that keep the same time and judge answers alike that differ only in their objects.
structure Resembles (poll : Poll σ β ρ μ) (other : Poll τ γ ρ μ) (alike : σ → τ → Prop) :
    Prop where
  query : poll.query.Resembles other.query alike
  judge_eq : ∀ (e : Exchange β) (f : Exchange γ) (memory : μ), f.outline = e.outline →
    other.judge f memory = poll.judge e memory
  clock_eq : other.clock = poll.clock
  schedule_eq : other.schedule = poll.schedule

theorem Resembles.ask {poll : Poll σ β ρ μ} {other : Poll τ γ ρ μ} {alike : σ → τ → Prop}
    (hresembles : poll.Resembles other alike) (now : Duration) (halike : alike state twin) :
    (other.ask now twin).1.outline = (poll.ask now state).1.outline ∧
      alike (poll.ask now state).2 (other.ask now twin).2 := by
  simp only [Poll.ask, hresembles.clock_eq, hresembles.schedule_eq]
  exact hresembles.query.exchange poll.clock poll.schedule now halike

theorem Resembles.rounds {poll : Poll σ β ρ μ} {other : Poll τ γ ρ μ} {alike : σ → τ → Prop}
    (hresembles : poll.Resembles other alike) (now : Duration) (state : σ) (twin : τ) (memory : μ)
    (halike : alike state twin) :
    (poll.rounds now state memory).Resembles alike (other.rounds now twin memory) := by
  fun_induction poll.rounds now state memory generalizing twin with
  | case1 now state memory asked result hsettled =>
      obtain ⟨houtline, hnext⟩ := hresembles.ask now halike
      have hother := (hresembles.judge_eq _ _ memory houtline).trans hsettled
      rw [other.rounds_of_settled hother]
      exact ⟨congrArg (fun e => [e]) houtline, congrArg Exchange.finish houtline, hnext, rfl⟩
  | case2 now state memory asked kept hundecided hleft ih =>
      obtain ⟨houtline, hnext⟩ := hresembles.ask now halike
      have hfinish : (other.ask now twin).1.finish = asked.1.finish :=
        congrArg Exchange.finish houtline
      have hother := (hresembles.judge_eq _ _ memory houtline).trans hundecided
      have hrest := ih _ hnext
      rw [← hfinish, ← hresembles.schedule_eq] at hleft
      rw [other.rounds_of_left hother hleft, hfinish, hresembles.clock_eq, hresembles.schedule_eq]
      exact ⟨congrArg₂ List.cons houtline hrest.exchanges_eq, hrest.finish_eq, hrest.alike,
        hrest.verdict_eq⟩
  | case3 now state memory asked kept hundecided hover =>
      obtain ⟨houtline, hnext⟩ := hresembles.ask now halike
      have hfinish : (other.ask now twin).1.finish = asked.1.finish :=
        congrArg Exchange.finish houtline
      have hother := (hresembles.judge_eq _ _ memory houtline).trans hundecided
      rw [← hfinish, ← hresembles.schedule_eq] at hover
      rw [other.rounds_of_over hother hover]
      exact ⟨congrArg (fun e => [e]) houtline, hfinish, hnext, rfl⟩

end Poll

namespace Watch

-- The answers that end the wait for a deletion, which are the errors, and the result of each.
inductive DecidesAbsence (awaited : String) : Exchange α → Except PollError Unit → Prop
  | gone (hanswer : e.answer = .error (.notFound missing)) : DecidesAbsence awaited e (.ok ())
  | failed (hanswer : e.answer = .error (.backend reason)) :
      DecidesAbsence awaited e (.error (.store awaited e.finish (.backend reason)))

theorem judgeAbsence_settled_iff (awaited : String) (e : Exchange α) (memory : Unit)
    (result : Except PollError Unit) :
    judgeAbsence awaited e memory = .settled result ↔ DecidesAbsence awaited e result := by
  constructor
  · intro hjudge
    simp only [judgeAbsence] at hjudge
    split at hjudge
    next => cases hjudge
    next missing hanswer =>
      cases hjudge
      exact .gone hanswer
    next error hfound hanswer =>
      cases hjudge
      cases error with
      | notFound missing => exact absurd rfl (hfound missing)
      | backend reason => exact .failed hanswer
  · intro hdecides
    cases hdecides with
    | gone hanswer => simp only [judgeAbsence, hanswer]
    | failed hanswer => simp only [judgeAbsence, hanswer]

theorem not_decidesAbsence_timeout (awaited : String) (e : Exchange α) (report : TimeoutReport) :
    ¬DecidesAbsence awaited e (.error (.timeout report)) := nofun

theorem succeeds_iff_not_decidesAbsence (awaited : String) (e : Exchange α) :
    e.Succeeds ↔ ∀ result, ¬DecidesAbsence awaited e result := by
  constructor
  · rintro ⟨obj, hobj⟩ result hdecides
    cases hdecides with
    | gone hanswer | failed hanswer => cases hobj.symm.trans hanswer
  · intro hnone
    cases hanswer : e.answer with
    | ok obj => exact ⟨obj, hanswer⟩
    | error error =>
        cases error with
        | notFound missing => exact absurd (.gone hanswer) (hnone _)
        | backend reason => exact absurd (.failed hanswer) (hnone _)

theorem judgeAbsence_of_outline {e : Exchange α} {f : Exchange β} (awaited : String)
    (memory : Unit) (houtline : f.outline = e.outline) :
    judgeAbsence awaited f memory = judgeAbsence awaited e memory := by
  have hfinish : f.finish = e.finish := congrArg Exchange.finish houtline
  rcases outline_cases (congrArg Exchange.answer houtline) with
    ⟨obj, twin, hanswer, hother⟩ | ⟨error, hanswer, hother⟩
  · simp only [judgeAbsence, hanswer, hother]
  · cases error <;> simp only [judgeAbsence, hanswer, hother, hfinish]

variable {key : Key} {poll : Poll σ α Unit Unit}

theorem Ceases.calls (hrun : Ceases awaited key poll state run) :
    poll.query.Calls poll.clock poll.schedule .zero state run.exchanges run.state := by
  cases hrun with
  | early htrace | timedOut htrace => exact htrace.calls

theorem Ceases.endsAtFirst {decides : Exchange α → Except PollError Unit → Prop}
    (hrun : Ceases awaited key poll state run) (hsettles : poll.SettlesBy decides) :
    run.EndsAtFirst decides := by
  cases hrun with
  | early htrace hverdict =>
      obtain ⟨before, last, hexchanges, hfinish, hbefore, hlast⟩ :=
        htrace.last_decides hsettles hverdict
      rw [hexchanges, hfinish]
      exact .decided hbefore hlast
  | timedOut htrace hverdict =>
      obtain ⟨before, last, hexchanges, hfinish⟩ := htrace.exists_last
      have hnone := htrace.none_decides hsettles hverdict
      rw [hexchanges] at hnone
      simp only [hexchanges, hfinish]
      exact .timedOut hnone

-- When time has run out, the report is that the object is still there.
theorem Ceases.reported {decides : Exchange α → Except PollError Unit → Prop}
    (hrun : Ceases awaited key poll state run) (hsettles : poll.SettlesBy decides)
    (hreport : ∀ e reported, ¬decides e (.error (.timeout reported))) {reported : TimeoutReport}
    (houtcome : run.outcome = .error (.timeout reported)) :
    reported = stillThere awaited key run.finish := by
  cases hrun with
  | early htrace hverdict =>
      obtain ⟨_, last, _, _, _, hlast⟩ := htrace.last_decides hsettles hverdict
      cases houtcome
      exact absurd hlast (hreport last reported)
  | timedOut =>
      cases houtcome
      rfl

theorem deletedPoll_resembles {watch : Watch α} {other : Watch β} {service : Service σ α}
    {twins : Service τ β} {alike : σ → τ → Prop} (clock : Clock)
    (hconfig : other.config = watch.config) (hkind : other.kind = watch.kind)
    (hresembles : (getQuery service key).Resembles (getQuery twins key) alike) :
    (watch.deletedPoll service clock key).Resembles (other.deletedPoll twins clock key) alike where
  query := hresembles
  judge_eq e f memory houtline := by
    have hawaited : other.awaitedDeletion key = watch.awaitedDeletion key := by
      rw [awaitedDeletion, awaitedDeletion, hkind]
    simp only [deletedPoll, hawaited]
    exact judgeAbsence_of_outline _ memory houtline
  clock_eq := rfl
  schedule_eq := by simp only [deletedPoll, hconfig]

-- The wait for a deletion, whatever the store answers and whenever. It ends at the first error,
-- well if that is not found and else with this error, and it runs out of time exactly if it has
-- been given an object each time. What the objects are and what the checklist says of them makes no
-- difference.
theorem deleted_endsAtFirst (watch : Watch α) (service : Service σ α) (clock : Clock) (state : σ)
    (key : Key) (hkey : watch.lookupKey = .ok key) (hrange : watch.config.InRange) :
    ∃ run, watch.deleted service clock state = .ok run ∧
      (getQuery service key).Calls clock watch.config.schedule .zero state run.exchanges
        run.state ∧
      run.EndsAtFirst (DecidesAbsence (watch.awaitedDeletion key)) ∧
      (∀ e ∈ run.exchanges, e.answer = .error ((getQuery service key).late e.budget) →
        run.outcome = .error (.store (watch.awaitedDeletion key) run.finish
          (.backend ("get " ++ key.text ++ " did not complete within " ++ e.budget.text)))) ∧
      (run.outcome = .error (.timeout
          ⟨watch.awaitedDeletion key, run.finish, none, [key.text ++ " still exists"], none⟩) ↔
        ∀ e ∈ run.exchanges, e.Succeeds) ∧
      ∀ {β τ : Type} (other : Watch β) (twins : Service τ β) (twin : τ) (alike : σ → τ → Prop),
        other.lookupKey = .ok key → other.config = watch.config → other.kind = watch.kind →
        (getQuery service key).Resembles (getQuery twins key) alike → alike state twin →
        ∃ again, other.deleted twins clock twin = .ok again ∧ again.outcome = run.outcome ∧
          again.finish = run.finish ∧
          again.exchanges.map Exchange.outline = run.exchanges.map Exchange.outline := by
  have hsettles : (watch.deletedPoll service clock key).SettlesBy
      (DecidesAbsence (watch.awaitedDeletion key)) :=
    judgeAbsence_settled_iff (watch.awaitedDeletion key)
  obtain ⟨run, hrun, hceases⟩ := deleted_ceases service clock state hkey hrange
  have hends := hceases.endsAtFirst hsettles
  have hreport := @not_decidesAbsence_timeout α (watch.awaitedDeletion key)
  refine ⟨run, hrun, hceases.calls, hends, ?_, ?_, ?_⟩
  · intro e he hlate
    obtain ⟨hdecides, hfinish⟩ := hends.of_decides he (.failed hlate)
    rw [hfinish]
    generalize run.outcome = outcome at hdecides
    cases hdecides with
    | gone hanswer => cases hlate.symm.trans hanswer
    | failed hanswer =>
        cases hlate.symm.trans hanswer
        rfl
  · simp only [succeeds_iff_not_decidesAbsence (watch.awaitedDeletion key)]
    rw [← hends.timeout_iff hreport]
    refine ⟨fun houtcome => ⟨_, houtcome⟩, fun ⟨reported, houtcome⟩ => ?_⟩
    rw [houtcome, hceases.reported hsettles hreport houtcome]
    rfl
  · intro β τ other twins twin alike hother hconfig hkind hresembles halike
    have hinrange : other.config.InRange := hconfig ▸ hrange
    have hrounds := (deletedPoll_resembles clock hconfig hkind hresembles).rounds .zero state twin
      () halike
    cases hrun.symm.trans (deleted_eq_ceased clock hkey hrange)
    refine ⟨_, deleted_eq_ceased clock hother hinrange, ?_, hrounds.finish_eq,
      hrounds.exchanges_eq⟩
    simp only [ceased, hrounds.verdict_eq, hrounds.finish_eq, awaitedDeletion, hkind]

-- The same item with another number, as late.
def lateTwin (millis : Nat) : Service Nat Item :=
  Script.service .milliseconds [⟨.ofMillis millis, .objects [⟨"toolchain", "counter", 9⟩]⟩]

theorem lateItem_resembles (millis : Nat) (key : Key) :
    (getQuery (lateItem millis) key).Resembles (getQuery (lateTwin millis) key) Eq where
  late_eq := rfl
  completes now calls twin halike := by
    cases halike
    cases calls <;> exact .some ⟨rfl, rfl, rfl⟩
  abandoned _ _ _ _ halike := congrArg (· + 1) halike

-- The second call is given up, with and without a checklist and for either number.
theorem deleted_endsAtFirst_of_late_twins :
    let watch := awaitedItem 10 10
    let other : Watch Item := { watch with list := .nil }
    let key := Key.inScope "toolchain" "counter"
    watch.lookupKey = .ok key ∧ watch.config.InRange ∧ other.lookupKey = .ok key ∧
      other.config = watch.config ∧ other.kind = watch.kind ∧
      (getQuery (lateItem 6) key).Resembles (getQuery (lateTwin 6) key) Eq ∧
      ∃ run, watch.deleted (lateItem 6) .milliseconds 0 = .ok run ∧
        (getQuery (lateItem 6) key).Calls .milliseconds watch.config.schedule .zero 0
          run.exchanges run.state ∧
        run.EndsAtFirst (DecidesAbsence (watch.awaitedDeletion key)) ∧
        (∀ e ∈ run.exchanges, e.answer = .error ((getQuery (lateItem 6) key).late e.budget) →
          run.outcome = .error (.store (watch.awaitedDeletion key) run.finish
            (.backend ("get " ++ key.text ++ " did not complete within " ++ e.budget.text)))) ∧
        (run.outcome = .error (.timeout
            ⟨watch.awaitedDeletion key, run.finish, none, [key.text ++ " still exists"], none⟩) ↔
          ∀ e ∈ run.exchanges, e.Succeeds) ∧
        ∃ again, other.deleted (lateTwin 6) .milliseconds 0 = .ok again ∧
          again.outcome = run.outcome ∧ again.finish = run.finish ∧
          again.exchanges.map Exchange.outline = run.exchanges.map Exchange.outline := by
  intro watch other key
  have hrange : watch.config.InRange := by decide
  have hresembles := lateItem_resembles 6 key
  obtain ⟨run, hrun, hcalls, hends, hlate, htimeout, hresult⟩ :=
    deleted_endsAtFirst watch (lateItem 6) .milliseconds 0 key rfl hrange
  exact ⟨rfl, hrange, rfl, rfl, rfl, hresembles, run, hrun, hcalls, hends, hlate, htimeout,
    hresult other (lateTwin 6) 0 Eq rfl rfl rfl hresembles rfl⟩

end Watch

end Eventually
