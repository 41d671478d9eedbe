import Eventually.Proofs.Poll.Addressing
import Eventually.Proofs.Poll.Course
import Eventually.Proofs.Store.Faulty

namespace Eventually

-- What a call hands over, an object or a list of them.
abbrev Handed (α : Type) := α ⊕ List α

def Asked.operation : Asked → String
  | .get _ => "get"
  | .list _ => "list"

def Reply.map (f : β → γ) (reply : Reply σ β) : Reply σ γ where
  completion := reply.completion.map fun c => ⟨c.latency, c.answer.map f, c.state⟩
  abandoned := reply.abandoned

-- A call for either.
def Service.call (service : Service σ α) (asked : Asked) (now : Duration) (state : σ) :
    Reply σ (Handed α) :=
  match asked with
  | .get key => (service.get key now state).map .inl
  | .list scope => (service.list scope now state).map .inr

-- A call that was waited for, with its answer.
structure Answered (α : Type) where
  start : Duration
  asked : Asked
  finish : Duration
  answer : Except StoreError (Handed α)

namespace Answered

def EndsWith (call : Answered α) (c : Completion σ (Handed α)) : Prop :=
  call.finish.nanos = call.start.nanos + c.latency.nanos ∧ call.answer = c.answer

def note (call : Answered α) : Duration × Asked := (call.start, call.asked)

end Answered

-- A call as somebody made it who waited for the answer or went away.
inductive Attempt (α : Type) where
  | completed (call : Answered α)
  | abandoned (start : Duration) (asked : Asked) (waited : Duration)

def Attempt.completed? : Attempt α → Option (Answered α)
  | completed call => some call
  | abandoned .. => none

-- Whoever goes away does so while the delay of the call lasts.
def Attempt.WithinDelay (clock : Clock) (delay : Duration) : Attempt α → Prop
  | completed _ => True
  | abandoned start _ waited => start.nanos + waited.nanos < (clock.delayed start delay).nanos

instance (clock : Clock) (delay : Duration) (attempt : Attempt α) :
    Decidable (attempt.WithinDelay clock delay) :=
  match attempt with
  | .completed _ => .isTrue trivial
  | .abandoned start _ waited =>
      inferInstanceAs (Decidable (start.nanos + waited.nanos < (clock.delayed start delay).nanos))

-- The calls can be made of a store one after the other, each to its end, and take it from one state
-- to another.
def Service.Answers (service : Service σ α) : σ → List (Answered α) → σ → Prop
  | state, [], last => last = state
  | state, call :: rest, last =>
      ∃ c ∈ (service.call call.asked call.start state).completion,
        call.EndsWith c ∧ service.Answers c.state rest last

theorem Service.call_noting (service : Service σ α) (asked : Asked) (now : Duration)
    (state : Noted σ) :
    service.noting.call asked now state =
      (service.call asked now state.inner).noted (state.notes ++ [(now, asked)]) := by
  cases asked <;>
    simp [call, noting, Reply.map, Reply.noted, Option.map_map, Function.comp_def]

-- A store with notes gives the answers that it gives without, and notes the calls for them.
theorem Service.answers_noting_iff (service : Service σ α) (state last : Noted σ)
    (calls : List (Answered α)) :
    service.noting.Answers state calls last ↔
      service.Answers state.inner calls last.inner ∧
        last.notes = state.notes ++ calls.map Answered.note := by
  induction calls generalizing state with
  | nil =>
      simp only [Answers, List.map_nil, List.append_nil]
      constructor
      · rintro rfl
        exact ⟨rfl, rfl⟩
      · rintro ⟨hinner, hnotes⟩
        obtain ⟨inner, notes⟩ := last
        cases hinner
        cases hnotes
        rfl
  | cons call rest ih =>
      simp only [Answers, call_noting, Reply.noted, Option.mem_map, ih, List.map_cons]
      rw [List.append_cons state.notes call.note]
      constructor
      · rintro ⟨_, ⟨c, hc, rfl⟩, hends, hrest, hnotes⟩
        exact ⟨⟨c, hc, hends, hrest⟩, hnotes⟩
      · rintro ⟨⟨c, hc, hends, hrest⟩, hnotes⟩
        exact ⟨_, ⟨c, hc, rfl⟩, hends, hrest, hnotes⟩

namespace Faulty

theorem service_call (clock : Clock) (delay : Duration) (hidden : Service σ α) (asked : Asked)
    (now : Duration) (state : Faulty σ) :
    (service clock delay hidden).call asked now state =
      reply clock delay asked.operation (hidden.call asked) now state := by
  obtain ⟨inner, remaining⟩ := state
  cases asked <;> cases remaining <;>
    simp [Service.call, Reply.map, service, reply, Asked.operation, Except.map, Option.map_map,
      Function.comp_def]

-- Attempts on a store behind a front, where who goes away does so while the delay lasts.
def Session (clock : Clock) (delay : Duration) (hidden : Service σ α) :
    Faulty σ → List (Attempt α) → Faulty σ → Prop
  | state, [], last => last = state
  | state, .completed call :: rest, last =>
      ∃ c ∈ ((service clock delay hidden).call call.asked call.start state).completion,
        call.EndsWith c ∧ Session clock delay hidden c.state rest last
  | state, .abandoned start asked waited :: rest, last =>
      start.nanos + waited.nanos < (clock.delayed start delay).nanos ∧
        Session clock delay hidden
          (((service clock delay hidden).call asked start state).abandoned waited) rest last

-- The call that the front passes on when the delay is over.
def behind (clock : Clock) (delay : Duration) (call : Answered α) : Answered α :=
  { call with start := clock.delayed call.start delay }

theorem endsWith_behind_iff (clock : Clock) (delay : Duration) (call : Answered α)
    (c : Completion σ (Handed α)) :
    call.EndsWith (σ := Faulty σ)
        ⟨⟨(clock.delayed call.start delay).nanos - call.start.nanos + c.latency.nanos⟩, c.answer,
          ⟨c.state, 0⟩⟩ ↔
      (behind clock delay call).EndsWith c := by
  have hdelay := clock.le_delayed call.start delay
  simp only [Answered.EndsWith, behind]
  refine and_congr_left fun _ => ?_
  omega

-- A call that the front has made to fail.
structure Injected (clock : Clock) (delay : Duration) (call : Answered α) : Prop where
  finish_eq : call.finish = clock.delayed call.start delay
  answer_eq : call.answer = .error (injected call.asked.operation)

-- What becomes of attempts at a front. The first that were completed have failed, as many as there
-- were failures, and the others were served from behind it. Attempts that were given up count for
-- nothing.
structure Rationed (clock : Clock) (delay : Duration) (faults : Nat) (attempts : List (Attempt α))
    (failed served : List (Answered α)) (left : Nat) : Prop where
  withinDelay : ∀ attempt ∈ attempts, attempt.WithinDelay clock delay
  completed_eq : attempts.filterMap Attempt.completed? = failed ++ served
  failed_length : failed.length = min faults (failed ++ served).length
  failed_injected : ∀ call ∈ failed, Injected clock delay call
  left_eq : left = faults - failed.length

section Steps

variable {clock : Clock} {delay : Duration} {hidden : Service σ α} {inner : σ} {faults left : Nat}
  {rest : List (Attempt α)} {failed served : List (Answered α)}

theorem session_abandoned_iff {state last : Faulty σ} :
    Session clock delay hidden state (.abandoned start asked waited :: rest) last ↔
      start.nanos + waited.nanos < (clock.delayed start delay).nanos ∧
        Session clock delay hidden state rest last := by
  rw [Session]
  refine and_congr_right fun hwaiting => ?_
  rw [service_call, reply_abandoned hwaiting]

-- A call that meets a failure always comes to its end, and uses the failure up.
theorem session_failing_iff {call : Answered α} {last : Faulty σ} :
    Session clock delay hidden ⟨inner, faults + 1⟩ (.completed call :: rest) last ↔
      Injected clock delay call ∧ Session clock delay hidden ⟨inner, faults⟩ rest last := by
  have hdelay := clock.le_delayed call.start delay
  simp only [Session, service_call, reply_failing, Option.mem_some, exists_eq_left']
  refine and_congr_left fun _ => ⟨?_, ?_⟩
  · rintro ⟨hfinish, hanswer⟩
    have hnanos : call.finish.nanos = (clock.delayed call.start delay).nanos := by
      simp only at hfinish
      omega
    exact ⟨congrArg Duration.mk hnanos, hanswer⟩
  · rintro ⟨hfinish, hanswer⟩
    refine ⟨?_, hanswer⟩
    simp only [hfinish]
    omega

-- Without failures a call is a call behind the front that begins after the delay.
theorem session_serving_iff {call : Answered α} {last : Faulty σ} :
    Session clock delay hidden ⟨inner, 0⟩ (.completed call :: rest) last ↔
      ∃ c ∈ (hidden.call call.asked (clock.delayed call.start delay) inner).completion,
        (behind clock delay call).EndsWith c ∧
          Session clock delay hidden ⟨c.state, 0⟩ rest last := by
  simp only [Session, service_call, reply_serving, Option.mem_map]
  constructor
  · rintro ⟨_, ⟨d, hd, rfl⟩, hends, hrest⟩
    exact ⟨d, hd, (endsWith_behind_iff clock delay call d).mp hends, hrest⟩
  · rintro ⟨d, hd, hends, hrest⟩
    exact ⟨_, ⟨d, hd, rfl⟩, (endsWith_behind_iff clock delay call d).mpr hends, hrest⟩

theorem rationed_abandoned_iff :
    Rationed clock delay faults (.abandoned start asked waited :: rest) failed served left ↔
      start.nanos + waited.nanos < (clock.delayed start delay).nanos ∧
        Rationed clock delay faults rest failed served left := by
  constructor
  · intro h
    obtain ⟨hwaiting, hrest⟩ := List.forall_mem_cons.mp h.withinDelay
    exact ⟨hwaiting, hrest, h.completed_eq, h.failed_length, h.failed_injected, h.left_eq⟩
  · rintro ⟨hwaiting, h⟩
    exact ⟨List.forall_mem_cons.mpr ⟨hwaiting, h.withinDelay⟩, h.completed_eq, h.failed_length,
      h.failed_injected, h.left_eq⟩

theorem rationed_failing_iff {call : Answered α} :
    Rationed clock delay (faults + 1) (.completed call :: rest) failed served left ↔
      ∃ others, failed = call :: others ∧ Injected clock delay call ∧
        Rationed clock delay faults rest others served left := by
  constructor
  · intro h
    have hcompleted : call :: rest.filterMap Attempt.completed? = failed ++ served :=
      h.completed_eq
    have hlength := h.failed_length
    have hleft := h.left_eq
    cases failed with
    | nil => simp [← hcompleted] at hlength
    | cons first others =>
        obtain ⟨rfl, hrest⟩ := List.cons.inj hcompleted
        obtain ⟨hinjected, hothers⟩ := List.forall_mem_cons.mp h.failed_injected
        simp only [List.length_cons, List.cons_append] at hlength hleft
        exact ⟨others, rfl, hinjected, (List.forall_mem_cons.mp h.withinDelay).2, hrest,
          by omega, hothers, by omega⟩
  · rintro ⟨others, rfl, hinjected, h⟩
    have hlength := h.failed_length
    have hleft := h.left_eq
    refine ⟨List.forall_mem_cons.mpr ⟨trivial, h.withinDelay⟩,
      congrArg (call :: ·) h.completed_eq, ?_,
      List.forall_mem_cons.mpr ⟨hinjected, h.failed_injected⟩, ?_⟩
    · simp only [List.length_cons, List.cons_append] at hlength ⊢
      omega
    · simp only [List.length_cons]
      omega

theorem rationed_serving_iff {call : Answered α} :
    Rationed clock delay 0 (.completed call :: rest) failed served left ↔
      ∃ others, served = call :: others ∧ Rationed clock delay 0 rest failed others left := by
  constructor
  · intro h
    have hnone : failed = [] := List.eq_nil_of_length_eq_zero (by simpa using h.failed_length)
    subst hnone
    exact ⟨_, h.completed_eq.symm, (List.forall_mem_cons.mp h.withinDelay).2, rfl, by simp,
      List.forall_mem_nil _, h.left_eq⟩
  · rintro ⟨others, rfl, h⟩
    have hnone : failed = [] := List.eq_nil_of_length_eq_zero (by simpa using h.failed_length)
    subst hnone
    exact ⟨List.forall_mem_cons.mpr ⟨trivial, h.withinDelay⟩, congrArg (call :: ·) h.completed_eq,
      by simp, List.forall_mem_nil _, h.left_eq⟩

end Steps

-- The accounts of a front are right, and they say all that there is to say of it: attempts with
-- these accounts can be made if the store behind the front has the answers.
theorem session_iff (clock : Clock) (delay : Duration) (hidden : Service σ α) (inner : σ)
    (faults : Nat) (attempts : List (Attempt α)) (last : Faulty σ) :
    Session clock delay hidden ⟨inner, faults⟩ attempts last ↔
      ∃ failed served, Rationed clock delay faults attempts failed served last.remaining ∧
        hidden.Answers inner (served.map (behind clock delay)) last.inner := by
  induction attempts generalizing inner faults with
  | nil =>
      constructor
      · rintro rfl
        exact ⟨[], [], ⟨List.forall_mem_nil _, rfl, by simp, List.forall_mem_nil _, rfl⟩, rfl⟩
      · rintro ⟨failed, served, h, hanswers⟩
        obtain ⟨rfl, rfl⟩ := List.append_eq_nil_iff.mp h.completed_eq.symm
        obtain ⟨current, remaining⟩ := last
        cases hanswers
        cases h.left_eq
        rfl
  | cons attempt rest ih =>
      cases attempt with
      | abandoned start asked waited =>
          simp only [session_abandoned_iff, rationed_abandoned_iff, ih, and_assoc, exists_and_left]
      | completed call =>
          cases faults with
          | succ faults =>
              rw [session_failing_iff, ih]
              simp only [rationed_failing_iff]
              constructor
              · rintro ⟨hinjected, failed, served, h, hanswers⟩
                exact ⟨call :: failed, served, ⟨failed, rfl, hinjected, h⟩, hanswers⟩
              · rintro ⟨_, served, ⟨failed, rfl, hinjected, h⟩, hanswers⟩
                exact ⟨hinjected, failed, served, h, hanswers⟩
          | zero =>
              simp only [session_serving_iff, rationed_serving_iff, ih]
              constructor
              · rintro ⟨c, hc, hends, failed, served, h, hanswers⟩
                exact ⟨failed, call :: served, ⟨served, rfl, h⟩, c, hc, hends, hanswers⟩
              · rintro ⟨failed, _, ⟨served, rfl, h⟩, c, hc, hends, hanswers⟩
                exact ⟨c, hc, hends, failed, served, h, hanswers⟩

end Faulty

end Eventually
