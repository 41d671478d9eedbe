import Eventually.Proofs.Assertion.Agreement
import Eventually.Proofs.Poll.Absence
import Eventually.Proofs.Poll.Selection

namespace Eventually

-- What a store is asked for by a call.
inductive Asked where
  | get (key : Key)
  | list (scope : Option String)
deriving DecidableEq

-- A store with a note of every call so far, when it was made and what for.
structure Noted (σ : Type) where
  inner : σ
  notes : List (Duration × Asked)

def Reply.noted (notes : List (Duration × Asked)) (reply : Reply σ β) : Reply (Noted σ) β where
  completion := reply.completion.map fun c => ⟨c.latency, c.answer, ⟨c.state, notes⟩⟩
  abandoned waited := ⟨reply.abandoned waited, notes⟩

-- A call is noted when it is made, whatever becomes of it, and otherwise the store stays as it is.
def Service.noting (service : Service σ α) : Service (Noted σ) α where
  get key now state :=
    (service.get key now state.inner).noted (state.notes ++ [(now, .get key)])
  list scope now state :=
    (service.list scope now state.inner).noted (state.notes ++ [(now, .list scope)])

def Exchange.note (asked : Asked) (e : Exchange β) : Duration × Asked := (e.start, asked)

namespace Query

def noting (query : Query σ β) (asked : Asked) : Query (Noted σ) β where
  call now state := (query.call now state.inner).noted (state.notes ++ [(now, asked)])
  late := query.late

theorem exchange_start (query : Query σ β) (clock : Clock) (schedule : Schedule) (now : Duration)
    (state : σ) : (query.exchange clock schedule now state).1.start = now :=
  (query.exchange_step clock schedule now state).start_eq

theorem exchange_noting (query : Query σ β) (asked : Asked) (clock : Clock) (schedule : Schedule)
    (now : Duration) (state : σ) (notes : List (Duration × Asked)) :
    (query.noting asked).exchange clock schedule now ⟨state, notes⟩ =
      ((query.exchange clock schedule now state).1,
        ⟨(query.exchange clock schedule now state).2, notes ++ [(now, asked)]⟩) := by
  simp only [exchange, giveUp, noting, Reply.noted]
  cases (query.call now state).completion with
  | none => rfl
  | some c =>
      simp only [Option.map_some]
      split <;> rfl

end Query

namespace Poll

def noting (poll : Poll σ β ρ μ) (asked : Asked) : Poll (Noted σ) β ρ μ :=
  ⟨poll.query.noting asked, poll.judge, poll.clock, poll.schedule⟩

theorem ask_start (poll : Poll σ β ρ μ) (now : Duration) (state : σ) :
    (poll.ask now state).1.start = now :=
  poll.query.exchange_start poll.clock poll.schedule now state

theorem ask_noting (poll : Poll σ β ρ μ) (asked : Asked) (now : Duration) (state : σ)
    (notes : List (Duration × Asked)) :
    (poll.noting asked).ask now ⟨state, notes⟩ =
      ((poll.ask now state).1, ⟨(poll.ask now state).2, notes ++ [(now, asked)]⟩) :=
  poll.query.exchange_noting asked poll.clock poll.schedule now state notes

end Poll

def Rounds.noting (rounds : Rounds σ β ρ μ) (asked : Asked) (notes : List (Duration × Asked)) :
    Rounds (Noted σ) β ρ μ :=
  ⟨rounds.exchanges, rounds.finish, ⟨rounds.state, notes ++ rounds.exchanges.map (·.note asked)⟩,
    rounds.verdict⟩

def Run.noting (run : Run σ β ρ) (asked : Asked) : Run (Noted σ) β ρ :=
  ⟨run.exchanges, run.finish, ⟨run.state, run.exchanges.map (·.note asked)⟩, run.outcome⟩

namespace Poll

variable (poll : Poll σ β ρ μ) (asked : Asked)

theorem judge_noting (now : Duration) (state : σ) (memory : μ) (notes : List (Duration × Asked)) :
    (poll.noting asked).judge ((poll.noting asked).ask now ⟨state, notes⟩).1 memory =
      poll.judge (poll.ask now state).1 memory := by
  rw [ask_noting]
  rfl

theorem finish_noting (now : Duration) (state : σ) (notes : List (Duration × Asked)) :
    ((poll.noting asked).ask now ⟨state, notes⟩).1.finish = (poll.ask now state).1.finish := by
  rw [ask_noting]

-- The rounds of a poll go the same way on a store with notes, and each call leaves its note there.
theorem rounds_noting (now : Duration) (state : σ) (memory : μ) (notes : List (Duration × Asked)) :
    (poll.noting asked).rounds now ⟨state, notes⟩ memory =
      (poll.rounds now state memory).noting asked notes := by
  fun_induction poll.rounds now state memory generalizing notes with
  | case1 now state memory call result hsettled =>
      have hjudge := (poll.judge_noting asked now state memory notes).trans hsettled
      rw [rounds_of_settled _ hjudge, ask_noting]
      simp only [Rounds.noting, List.map_cons, List.map_nil, Exchange.note, call, ask_start]
  | case2 now state memory call kept hundecided hleft ih =>
      have hjudge := (poll.judge_noting asked now state memory notes).trans hundecided
      have hrest := ih (notes ++ [(now, asked)])
      rw [← poll.finish_noting asked now state notes] at hleft
      rw [rounds_of_left _ hjudge hleft, ask_noting]
      simp only [noting] at hrest ⊢
      rw [hrest]
      simp only [Rounds.noting, Rounds.before, List.map_cons, Exchange.note, call, ask_start,
        List.append_assoc, List.singleton_append]
  | case3 now state memory call kept hundecided hover =>
      have hjudge := (poll.judge_noting asked now state memory notes).trans hundecided
      rw [← poll.finish_noting asked now state notes] at hover
      rw [rounds_of_over _ hjudge hover, ask_noting]
      simp only [Rounds.noting, List.map_cons, List.map_nil, Exchange.note, call, ask_start]

variable {poll}

theorem Trace.exists_first {made : Rounds σ β ρ μ} (htrace : poll.Trace now state memory made) :
    ∃ first rest, made.exchanges = first :: rest ∧ first.start = now := by
  cases htrace with
  | settled hstep => exact ⟨_, _, rfl, hstep.start_eq⟩
  | expired hstep => exact ⟨_, _, rfl, hstep.start_eq⟩
  | again hstep => exact ⟨_, _, rfl, hstep.start_eq⟩

end Poll

-- Answers that decide a run say nothing about what it is to look for.
theorem Run.EndsAtFirst.ne_identity {decides : Exchange β → Except PollError ρ → Prop}
    {run : Run σ β ρ} (hends : run.EndsAtFirst decides)
    (hdecides : ∀ e error, ¬decides e (.error (.identity error))) (error : IdentityError) :
    run.outcome ≠ .error (.identity error) := by
  intro houtcome
  cases hends with
  | decided _ hlast =>
      cases houtcome
      exact hdecides _ error hlast
  | timedOut => cases houtcome

namespace Watch

theorem Concludes.exists_first [Writable α] {watch : Watch α}
    {poll : Poll σ β α (Option (Candidate α))} {run : Run σ β α}
    (hrun : watch.Concludes awaited poll state run) :
    ∃ first rest, run.exchanges = first :: rest ∧ first.start = .zero := by
  cases hrun with
  | early htrace => exact htrace.exists_first
  | late htrace | timedOut htrace =>
      obtain ⟨first, rest, hexchanges, hstart⟩ := htrace.exists_first
      exact ⟨first, rest ++ [_], by rw [hexchanges, List.cons_append], hstart⟩

theorem Ceases.exists_first {key : Key} {poll : Poll σ α Unit Unit} {run : Run σ α Unit}
    (hrun : Ceases awaited key poll state run) :
    ∃ first rest, run.exchanges = first :: rest ∧ first.start = .zero := by
  cases hrun with
  | early htrace | timedOut htrace => exact htrace.exists_first

theorem conclude_noting [Writable α] (watch : Watch α) (awaited : String)
    (poll : Poll σ β α (Option (Candidate α))) (asked : Asked) (state : σ) :
    watch.conclude awaited (poll.noting asked) ⟨state, []⟩ =
      (watch.conclude awaited poll state).noting asked := by
  have hrounds := poll.rounds_noting asked .zero state none []
  simp only [conclude, hrounds]
  simp only [Rounds.noting]
  cases hverdict : (poll.rounds .zero state none).verdict with
  | settled outcome => simp only [Run.noting, List.nil_append]
  | undecided memory =>
      simp only [poll.ask_noting, List.nil_append, Run.noting, List.map_append, List.map_cons,
        List.map_nil, Exchange.note, poll.ask_start]
      rfl

theorem ceased_noting (awaited : String) (key : Key) (rounds : Rounds σ α Unit Unit)
    (asked : Asked) :
    ceased awaited key (rounds.noting asked []) = (ceased awaited key rounds).noting asked := by
  simp only [ceased, Rounds.noting, Run.noting, List.nil_append]

-- The key of a wait for one object, the explicit one in the first place.
inductive SeeksKey (watch : Watch α) : Asked → Prop
  | explicit {key : Key} (hkey : watch.key = some key) : SeeksKey watch (.get key)
  | derived {key : Key} (hnone : watch.key = none) (hkey : watch.list.key = .ok key) :
      SeeksKey watch (.get key)

def LacksKey (watch : Watch α) (e : IdentityError) : Prop :=
  watch.key = none ∧ watch.list.key = .error e

-- The scope of a wait for some object. The namespaces that the checklist names have a say only if
-- there is no explicit one, and if it names none all namespaces are meant.
inductive SeeksScope (watch : Watch α) : Asked → Prop
  | explicit {scope : String} (hscope : watch.scope = some scope) :
      SeeksScope watch (.list (some scope))
  | everywhere (hnone : watch.scope = none) (hscopes : watch.list.scopes = []) :
      SeeksScope watch (.list none)
  | agreed {scope : String} (hnone : watch.scope = none)
      (hscopes : Unanimous watch.list.scopes scope) : SeeksScope watch (.list (some scope))

def LacksScope (watch : Watch α) (e : IdentityError) : Prop :=
  watch.scope = none ∧ Disagree watch.list.scopes ∧
    e = .ambiguousScope watch.list.scopes.eraseDups

theorem lookupKey_cases (watch : Watch α) :
    (∃ e, watch.lookupKey = .error e ∧ watch.LacksKey e) ∨
      ∃ key, watch.lookupKey = .ok key ∧ watch.SeeksKey (.get key) ∧ ∀ e, ¬watch.LacksKey e := by
  cases hexplicit : watch.key with
  | some key =>
      refine .inr ⟨key, by rw [lookupKey, hexplicit], .explicit hexplicit, fun e hlacks => ?_⟩
      cases hexplicit.symm.trans hlacks.1
  | none =>
      cases hkey : watch.list.key with
      | error e => exact .inl ⟨e, by rw [lookupKey, hexplicit, hkey], hexplicit, hkey⟩
      | ok key =>
          refine .inr ⟨key, by rw [lookupKey, hexplicit, hkey], .derived hexplicit hkey, ?_⟩
          intro e hlacks
          cases hkey.symm.trans hlacks.2

theorem lookupScope_cases (watch : Watch α) :
    (∃ e, watch.lookupScope = .error e ∧ watch.LacksScope e) ∨
      ∃ scope, watch.lookupScope = .ok scope ∧ watch.SeeksScope (.list scope) ∧
        ∀ e, ¬watch.LacksScope e := by
  cases hexplicit : watch.scope with
  | some scope =>
      refine .inr ⟨some scope, by rw [lookupScope, hexplicit], .explicit hexplicit, ?_⟩
      intro e hlacks
      cases hexplicit.symm.trans hlacks.1
  | none =>
      have hlookup : watch.lookupScope = watch.list.scopeHint := by rw [lookupScope, hexplicit]
      have hstated := watch.list.scopes_eq_stated
      rw [hlookup]
      rcases agreement_cases watch.list.scopes with hnil | ⟨scope, hscope⟩ | ⟨hsplit, hdistinct⟩
      · refine .inr ⟨none, ?_, .everywhere hexplicit hnil, fun e hlacks => ?_⟩
        · exact watch.list.scopeHint_of_hinted (.absent (hstated ▸ hnil))
        · obtain ⟨_, ⟨v, hv, _⟩, _⟩ := hlacks
          rw [hnil] at hv
          cases hv
      · refine .inr ⟨some scope, ?_, .agreed hexplicit hscope, fun e hlacks => ?_⟩
        · exact watch.list.scopeHint_of_hinted (.agreed (hstated ▸ hscope))
        · obtain ⟨_, ⟨v, hv, w, hw, hne⟩, _⟩ := hlacks
          exact hne ((hscope.2 v hv).trans (hscope.2 w hw).symm)
      · refine .inl ⟨_, ?_, hexplicit, hsplit, rfl⟩
        rw [hstated] at hsplit hdistinct ⊢
        exact watch.list.scopeHint_of_hinted (.ambiguous hsplit hdistinct)

end Watch

-- How a wait goes that may not know what to look for, and how it goes on a store with notes. If it
-- does not know it ends before it has begun, and otherwise it asks for one thing from the start on.
structure Run.Addressed (lacks : IdentityError → Prop) (seeks : Asked → Prop) (state : σ)
    (run : Run σ β ρ) (noted : Run (Noted σ) β ρ) : Prop where
  identity_iff : ∀ e, run.outcome = .error (.identity e) ↔ lacks e
  untouched : ∀ e, lacks e →
    run.exchanges = [] ∧ run.finish = .zero ∧ run.state = state ∧ noted.state = ⟨state, []⟩
  asked : (∀ e, ¬lacks e) → ∃ asked first rest, seeks asked ∧
    run.exchanges = first :: rest ∧ first.start = .zero ∧
      noted.state.notes = run.exchanges.map (·.note asked)
  noted_alike : noted.exchanges = run.exchanges ∧ noted.finish = run.finish ∧
    noted.outcome = run.outcome ∧ noted.state.inner = run.state

theorem Run.refused_addressed {lacks : IdentityError → Prop} (seeks : Asked → Prop) (state : σ)
    (hlacks : lacks e) (hunique : ∀ other, lacks other → other = e) :
    Run.Addressed (β := β) (ρ := ρ) lacks seeks state (.refused state (.identity e))
      (.refused ⟨state, []⟩ (.identity e)) where
  identity_iff other := by
    simp only [Run.refused, Except.error.injEq, PollError.identity.injEq]
    exact ⟨fun heq => heq ▸ hlacks, fun hother => (hunique other hother).symm⟩
  untouched _ _ := ⟨rfl, rfl, rfl, rfl⟩
  asked hnone := absurd hlacks (hnone e)
  noted_alike := ⟨rfl, rfl, rfl, rfl⟩

theorem Run.noting_addressed {lacks : IdentityError → Prop} {seeks : Asked → Prop} (state : σ)
    {run : Run σ β ρ} (hnone : ∀ e, ¬lacks e) (hseeks : seeks asked)
    (hfirst : ∃ first rest, run.exchanges = first :: rest ∧ first.start = .zero)
    (houtcome : ∀ e, run.outcome ≠ .error (.identity e)) :
    run.Addressed lacks seeks state (run.noting asked) where
  identity_iff e := iff_of_false (houtcome e) (hnone e)
  untouched e hlacks := absurd hlacks (hnone e)
  asked _ := by
    obtain ⟨first, rest, hexchanges, hstart⟩ := hfirst
    exact ⟨asked, first, rest, hseeks, hexchanges, hstart, rfl⟩
  noted_alike := ⟨rfl, rfl, rfl, rfl⟩

namespace Watch

section

variable [Writable α] (watch : Watch α) (service : Service σ α) (clock : Clock) (state : σ)

theorem matching_addressed (hrange : watch.config.InRange) :
    ∃ run noted, watch.matching service clock state = .ok run ∧
      watch.matching service.noting clock ⟨state, []⟩ = .ok noted ∧
      run.Addressed watch.LacksKey watch.SeeksKey state noted := by
  obtain ⟨e, hlookup, hlacks⟩ | ⟨key, hlookup, hseeks, hnone⟩ := watch.lookupKey_cases
  · refine ⟨_, _, matching_refused service clock state hlookup,
      matching_refused service.noting clock ⟨state, []⟩ hlookup, ?_⟩
    refine Run.refused_addressed _ state hlacks fun other hother => ?_
    exact Except.error.inj (hother.2.symm.trans hlacks.2)
  · let poll := watch.matchingPoll service clock key
    have hnoted := matching_eq service.noting clock ⟨state, []⟩ hlookup hrange
    have hsame := watch.conclude_noting (watch.awaitedMatch key) poll (.get key) state
    have hconcludes := watch.conclude_concludes (watch.awaitedMatch key) poll state
    refine ⟨_, _, matching_eq service clock state hlookup hrange,
      hnoted.trans (congrArg _ hsame), ?_⟩
    refine Run.noting_addressed state hnone hseeks hconcludes.exists_first ?_
    exact (hconcludes.endsAtFirst watch.judgeObject_settled_iff).ne_identity fun _ _ => nofun

theorem firstMatching_addressed (hrange : watch.config.InRange) :
    ∃ run noted, watch.firstMatching service clock state = .ok run ∧
      watch.firstMatching service.noting clock ⟨state, []⟩ = .ok noted ∧
      run.Addressed watch.LacksScope watch.SeeksScope state noted := by
  obtain ⟨e, hlookup, hlacks⟩ | ⟨scope, hlookup, hseeks, hnone⟩ := watch.lookupScope_cases
  · refine ⟨_, _, firstMatching_refused service clock state hlookup,
      firstMatching_refused service.noting clock ⟨state, []⟩ hlookup, ?_⟩
    refine Run.refused_addressed _ state hlacks fun other hother => ?_
    exact hother.2.2.trans hlacks.2.2.symm
  · let poll := watch.firstMatchingPoll service clock scope
    have hnoted := firstMatching_eq service.noting clock ⟨state, []⟩ hlookup hrange
    have hsame := watch.conclude_noting (watch.awaitedAny scope) poll (.list scope) state
    have hconcludes := watch.conclude_concludes (watch.awaitedAny scope) poll state
    refine ⟨_, _, firstMatching_eq service clock state hlookup hrange,
      hnoted.trans (congrArg _ hsame), ?_⟩
    refine Run.noting_addressed state hnone hseeks hconcludes.exists_first ?_
    exact (hconcludes.endsAtFirst watch.judgeList_settled_iff).ne_identity fun _ _ => nofun

omit [Writable α] in
theorem deleted_addressed (hrange : watch.config.InRange) :
    ∃ run noted, watch.deleted service clock state = .ok run ∧
      watch.deleted service.noting clock ⟨state, []⟩ = .ok noted ∧
      run.Addressed watch.LacksKey watch.SeeksKey state noted := by
  obtain ⟨e, hlookup, hlacks⟩ | ⟨key, hlookup, hseeks, hnone⟩ := watch.lookupKey_cases
  · refine ⟨_, _, deleted_refused service clock state hlookup,
      deleted_refused service.noting clock ⟨state, []⟩ hlookup, ?_⟩
    refine Run.refused_addressed _ state hlacks fun other hother => ?_
    exact Except.error.inj (hother.2.symm.trans hlacks.2)
  · let poll := watch.deletedPoll service clock key
    obtain ⟨run, hrun, hceases⟩ := deleted_ceases service clock state hlookup hrange
    cases hrun.symm.trans (deleted_eq_ceased clock hlookup hrange)
    have hrounds := poll.rounds_noting (.get key) .zero state () []
    have hnoted : watch.deleted service.noting clock ⟨state, []⟩ =
        .ok (ceased (watch.awaitedDeletion key) key
          ((poll.noting (.get key)).rounds .zero ⟨state, []⟩ ())) :=
      deleted_eq_ceased clock hlookup hrange
    rw [hrounds, ceased_noting] at hnoted
    refine ⟨_, _, hrun, hnoted, Run.noting_addressed state hnone hseeks hceases.exists_first ?_⟩
    exact (hceases.endsAtFirst (judgeAbsence_settled_iff _)).ne_identity fun _ _ => nofun

-- A wait fails for want of a key or a scope exactly if it is given none and its checklist does not
-- tell it, and then the store is not called and no time passes. Otherwise the first call is made at
-- once, for the explicit or the derived key or scope, and every later one for the same.
theorem waits_addressed (hrange : watch.config.InRange) :
    (∃ run noted, watch.matching service clock state = .ok run ∧
      watch.matching service.noting clock ⟨state, []⟩ = .ok noted ∧
      run.Addressed watch.LacksKey watch.SeeksKey state noted) ∧
    (∃ run noted, watch.firstMatching service clock state = .ok run ∧
      watch.firstMatching service.noting clock ⟨state, []⟩ = .ok noted ∧
      run.Addressed watch.LacksScope watch.SeeksScope state noted) ∧
    (∃ run noted, watch.deleted service clock state = .ok run ∧
      watch.deleted service.noting clock ⟨state, []⟩ = .ok noted ∧
      run.Addressed watch.LacksKey watch.SeeksKey state noted) :=
  ⟨watch.matching_addressed service clock state hrange,
    watch.firstMatching_addressed service clock state hrange,
    watch.deleted_addressed service clock state hrange⟩

end

-- Two names and no key, but a scope that is given and another one that the checklist names.
def tornItem : Watch Item where
  list := .ofList [.leaf (ItemRequirement.name "counter").leaf,
    .leaf (ItemRequirement.name "timer").leaf, .leaf (ItemRequirement.scope "workshop").leaf]
  config := ⟨.ofMillis 50, .ofMillis 20⟩
  scope := some "toolchain"
  kind := "Item"

-- Waiting for one object fails at once, and waiting for some object in the given scope goes on.
theorem waits_addressed_of_torn_item :
    tornItem.config.InRange ∧
      (∃ run noted, tornItem.matching (lateItem 6) .milliseconds 0 = .ok run ∧
        tornItem.matching (lateItem 6).noting .milliseconds ⟨0, []⟩ = .ok noted ∧
        run.outcome = .error (.identity (.ambiguousName ["counter", "timer"])) ∧
        run.exchanges = [] ∧ run.finish = .zero ∧ noted.state = ⟨0, []⟩) ∧
      (∃ run noted first rest, tornItem.firstMatching (lateItem 6) .milliseconds 0 = .ok run ∧
        tornItem.firstMatching (lateItem 6).noting .milliseconds ⟨0, []⟩ = .ok noted ∧
        (∀ e, run.outcome ≠ .error (.identity e)) ∧ run.exchanges = first :: rest ∧
        first.start = .zero ∧
        noted.state.notes = run.exchanges.map (·.note (.list (some "toolchain")))) ∧
      (∃ run noted, tornItem.deleted (lateItem 6) .milliseconds 0 = .ok run ∧
        tornItem.deleted (lateItem 6).noting .milliseconds ⟨0, []⟩ = .ok noted ∧
        run.outcome = .error (.identity (.ambiguousName ["counter", "timer"])) ∧
        run.exchanges = [] ∧ run.finish = .zero ∧ noted.state = ⟨0, []⟩) := by
  have hrange : tornItem.config.InRange := by decide
  have hlacks : tornItem.LacksKey (.ambiguousName ["counter", "timer"]) := ⟨rfl, by decide⟩
  have hknown : ∀ e, ¬tornItem.LacksScope e := fun e hlacks => nomatch hlacks.1
  obtain ⟨⟨run, noted, hrun, hnoted, haddressed⟩, ⟨listRun, listNoted, hlistRun, hlistNoted,
    hlistAddressed⟩, ⟨gone, goneNoted, hgone, hgoneNoted, hgoneAddressed⟩⟩ :=
    tornItem.waits_addressed (lateItem 6) .milliseconds 0 hrange
  obtain ⟨hexchanges, hfinish, _, hstate⟩ := haddressed.untouched _ hlacks
  obtain ⟨hgoneExchanges, hgoneFinish, _, hgoneState⟩ := hgoneAddressed.untouched _ hlacks
  obtain ⟨asked, first, rest, hseeks, hcalls, hstart, hnotes⟩ := hlistAddressed.asked hknown
  refine ⟨hrange, ⟨run, noted, hrun, hnoted, (haddressed.identity_iff _).mpr hlacks, hexchanges,
    hfinish, hstate⟩, ⟨listRun, listNoted, first, rest, hlistRun, hlistNoted, ?_, hcalls, hstart,
    ?_⟩, ⟨gone, goneNoted, hgone, hgoneNoted, (hgoneAddressed.identity_iff _).mpr hlacks,
    hgoneExchanges, hgoneFinish, hgoneState⟩⟩
  · exact fun e houtcome => hknown e ((hlistAddressed.identity_iff e).mp houtcome)
  · cases hseeks with
    | explicit hscope =>
        cases hscope
        exact hnotes
    | everywhere hnone | agreed hnone => cases hnone

end Watch

end Eventually
