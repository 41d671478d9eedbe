import Eventually.Proofs.Poll.Lockstep
import Eventually.Proofs.Poll.Selection
import Eventually.Proofs.Store.Shelf
import Eventually.Proofs.Store.Timeline

namespace Eventually

namespace Shelf

variable [Keyed α]

-- What is said of one key and of its namespace. Either nothing is learnt from both, or both come
-- from the same shelf.
inductive Answers (key : Key) : Except StoreError α → Except StoreError (List α) → Prop
  | failed (error other : StoreError) : Answers key (.error error) (.error other)
  | served (shelf : Shelf α) (hdistinct : shelf.KeysDistinct) :
      Answers key (shelf.fetch key) (.ok (shelf.listed key.scope))

end Shelf

namespace Checklist

-- Only objects under one key pass, and every object can be viewed.
structure Pinpoints [Keyed α] (list : Checklist α) (key : Key) : Prop where
  key_eq : ∀ obj, list.passes obj → Keyed.key obj = key
  viewed : ∀ obj, list.viewError? obj = none

section

variable [Keyed α] {list : Checklist α} {key : Key}

theorem Pinpoints.scan_ne_error (hlist : list.Pinpoints key) (candidates : List α)
    (error : ViewError) : list.scan candidates ≠ .error error :=
  Checklist.scan_ne_error (fun obj _ => hlist.viewed obj) error

-- At most one stored object passes. It is the one under the key, and the first match among those
-- in the namespace of the key.
theorem Pinpoints.fetch_iff (hlist : list.Pinpoints key) {shelf : Shelf α}
    (hdistinct : shelf.KeysDistinct) :
    shelf.fetch key = .ok obj ∧ list.passes obj ↔ obj ∈ shelf.objects ∧ list.passes obj := by
  rw [hdistinct.fetch_eq_ok_iff key]
  exact ⟨fun ⟨⟨hobj, _⟩, hpasses⟩ => ⟨hobj, hpasses⟩,
    fun ⟨hobj, hpasses⟩ => ⟨⟨hobj, hlist.key_eq obj hpasses⟩, hpasses⟩⟩

theorem Pinpoints.firstMatch_iff (hlist : list.Pinpoints key) {shelf : Shelf α}
    (hdistinct : shelf.KeysDistinct) :
    list.FirstMatch (shelf.listed key.scope) obj ↔ obj ∈ shelf.objects ∧ list.passes obj := by
  have hfirst_mem : ∀ other, list.FirstMatch (shelf.listed key.scope) other →
      other ∈ shelf.objects ∧ list.passes other := by
    rintro other ⟨before, after, hcandidates, _, hpasses⟩
    have hmem : other ∈ shelf.listed key.scope := by simp [hcandidates]
    exact ⟨Shelf.mem_of_mem_listed hmem, hpasses⟩
  refine ⟨hfirst_mem obj, fun ⟨hobj, hpasses⟩ => ?_⟩
  have hlisted : obj ∈ shelf.listed key.scope := by
    rw [← hlist.key_eq obj hpasses]
    exact Shelf.mem_listed_key hobj
  obtain ⟨other, hfirst⟩ := exists_firstMatch (hlist.scan_ne_error _) ⟨obj, hlisted, hpasses⟩
  obtain ⟨hother, hpassed⟩ := hfirst_mem other hfirst
  have hsame : Keyed.key obj = Keyed.key other :=
    (hlist.key_eq obj hpasses).trans (hlist.key_eq other hpassed).symm
  rwa [hdistinct.eq_of_key hobj hother hsame]

theorem Pinpoints.decides_iff (hlist : list.Pinpoints key) {e : Exchange α}
    {result : Except PollError α} :
    list.Decides e result ↔ ∃ obj, result = .ok obj ∧ e.answer = .ok obj ∧ list.passes obj := by
  constructor
  · intro hdecides
    cases hdecides with
    | passed hanswer hpasses => exact ⟨_, rfl, hanswer, hpasses⟩
    | unviewable _ hview => cases (hlist.viewed _).symm.trans hview
  · rintro ⟨obj, rfl, hanswer, hpasses⟩
    exact .passed hanswer hpasses

theorem Pinpoints.selects_iff (hlist : list.Pinpoints key) {e : Exchange (List α)}
    {result : Except PollError α} :
    list.Selects e result ↔ ∃ obj, result = .ok obj ∧
      ∃ candidates, e.answer = .ok candidates ∧ list.FirstMatch candidates obj := by
  constructor
  · intro hselects
    cases hselects with
    | matched hanswer hfirst => exact ⟨_, rfl, _, hanswer, hfirst⟩
    | unviewable _ hfirst => exact absurd hfirst.scan_eq (hlist.scan_ne_error _ _)
  · rintro ⟨obj, rfl, candidates, hanswer, hfirst⟩
    exact .matched hanswer hfirst

theorem Pinpoints.decides_iff_selects (hlist : list.Pinpoints key) {e : Exchange α}
    {f : Exchange (List α)} (hanswers : Shelf.Answers key e.answer f.answer)
    (result : Except PollError α) : list.Decides e result ↔ list.Selects f result := by
  rw [hlist.decides_iff, hlist.selects_iff]
  refine exists_congr fun obj => and_congr_right fun _ => ?_
  generalize e.answer = answer at hanswers ⊢
  generalize f.answer = reply at hanswers ⊢
  cases hanswers with
  | failed => simp
  | served shelf hdistinct =>
      rw [hlist.fetch_iff hdistinct, ← hlist.firstMatch_iff hdistinct]
      simp

end

-- The key that a checklist pins down is in the namespace that it names.
theorem scopeHint_of_key {list : Checklist α} {key : Key} (hkey : list.key = .ok key) :
    list.scopeHint = .ok key.scope := by
  simp only [Checklist.key] at hkey
  split at hkey
  next => cases hkey
  next name hname =>
    split at hkey
    next => cases hkey
    next => cases hkey
    next scope hscope =>
      cases hkey
      exact hscope
  next => cases hkey

end Checklist

-- A store that answers at once, whenever it is called, and from the shelf that there is then.
structure Service.Shows [Keyed α] (service : Service σ α) (shelves : Duration → Shelf α)
    (state : σ) : Prop where
  get : ∀ key, (Watch.getQuery service key).Follows (fun now => (shelves now).fetch key)
    (fun _ _ => False) state
  list : ∀ scope, (Watch.listQuery service scope).Follows
    (fun now => .ok ((shelves now).listed scope)) (fun _ _ => False) state

theorem Timeline.shows [Keyed α] (timeline : Timeline α) :
    service.Shows (fun now => (timeline.advance now).shelf) timeline where
  get key := timeline.get_follows key _
  list scope := timeline.list_follows scope _

namespace Watch

-- The checklist says which object is meant and nothing else does, and the timing is in range.
structure Unaided (watch : Watch α) (key : Key) : Prop where
  key_eq : watch.list.key = .ok key
  no_key : watch.key = none
  no_scope : watch.scope = none
  in_range : watch.config.InRange

-- Both waits come about and go in step.
def AgreesOn [Writable α] (watch : Watch α) (service : Service σ α) (clock : Clock) (state : σ) :
    Prop :=
  ∃ run other, watch.matching service clock state = .ok run ∧
    watch.firstMatching service clock state = .ok other ∧ run.InStep other

-- Whoever writes to a store in which no two objects share a key: waiting for the object under the
-- key and waiting for some object in its namespace are the same, also behind a front that fails
-- any number of calls.
def LookupsAgree [Keyed α] [Writable α] (watch : Watch α) : Prop :=
  ∀ (σ : Type) (service : Service σ α) (clock : Clock) (state : σ) (shelves : Duration → Shelf α),
    service.Shows shelves state → (∀ now, (shelves now).KeysDistinct) →
    watch.AgreesOn service clock state ∧
      ∀ faults, watch.AgreesOn (Faulty.service clock .zero service) clock ⟨state, faults⟩

section

variable {watch : Watch α} {key : Key}

theorem Unaided.lookupKey_eq (hwatch : watch.Unaided key) : watch.lookupKey = .ok key := by
  simp only [lookupKey, hwatch.no_key, hwatch.key_eq]

theorem Unaided.lookupScope_eq (hwatch : watch.Unaided key) :
    watch.lookupScope = .ok key.scope := by
  simp only [lookupScope, hwatch.no_scope, Checklist.scopeHint_of_key hwatch.key_eq]

variable [Keyed α]

-- Answers from one shelf are judged alike.
theorem judgeObject_inStep (hlist : watch.list.Pinpoints key) {e : Exchange α}
    {f : Exchange (List α)} (hanswers : Shelf.Answers key e.answer f.answer)
    (memory counterpart : Option (Candidate α)) :
    (watch.judgeObject e memory).InStep (watch.judgeList f counterpart) := by
  have hsame := hlist.decides_iff_selects hanswers
  cases hobject : watch.judgeObject e memory with
  | settled result =>
      have hdecides := (watch.judgeObject_settled_iff e memory result).mp hobject
      have hlast :=
        (watch.judgeList_settled_iff f counterpart result).mpr ((hsame result).mp hdecides)
      obtain ⟨obj, rfl, _⟩ := hlist.decides_iff.mp hdecides
      rw [hlast]
      exact .found obj
  | undecided kept =>
      cases hcandidates : watch.judgeList f counterpart with
      | undecided remembered => exact .undecided kept remembered
      | settled result =>
          have hselects := (watch.judgeList_settled_iff f counterpart result).mp hcandidates
          have hfirst :=
            (watch.judgeObject_settled_iff e memory result).mpr ((hsame result).mpr hselects)
          cases hobject.symm.trans hfirst

-- Whatever store both waits call: if their calls are answered in step, so do the waits go.
theorem Unaided.agreesOn [Writable α] (hwatch : watch.Unaided key)
    (hlist : watch.list.Pinpoints key) {service : Service σ α} (clock : Clock)
    {alike : Duration → σ → σ → Prop}
    (hqueries : (getQuery service key).InStep (listQuery service key.scope) (Shelf.Answers key)
      alike) (halike : alike .zero state state) : watch.AgreesOn service clock state := by
  have hpolls : (watch.matchingPoll service clock key).InStep
      (watch.firstMatchingPoll service clock key.scope) (Shelf.Answers key) alike :=
    ⟨hqueries, fun _ _ hanswers => judgeObject_inStep hlist hanswers, rfl, rfl⟩
  exact ⟨_, _, matching_eq service clock state hwatch.lookupKey_eq hwatch.in_range,
    firstMatching_eq service clock state hwatch.lookupScope_eq hwatch.in_range,
    hpolls.conclude halike watch _ _⟩

theorem Unaided.lookupsAgree [Writable α] (hwatch : watch.Unaided key)
    (hlist : watch.list.Pinpoints key) : watch.LookupsAgree := by
  intro σ service clock state shelves hshows hdistinct
  have hanswers (now : Duration) :
      Shelf.Answers key ((shelves now).fetch key) (.ok ((shelves now).listed key.scope)) :=
    .served (shelves now) (hdistinct now)
  have hqueries := (hshows.get key).inStep (hshows.list key.scope) hanswers
  refine ⟨hwatch.agreesOn hlist clock hqueries ⟨.start, .start⟩, fun faults => ?_⟩
  have hfronts := Faulty.front_inStep hqueries clock "get" "list" .failed
  exact hwatch.agreesOn hlist clock hfronts ⟨rfl, .start, .start⟩

end

end Watch

end Eventually
