import Eventually.Proofs.Clock
import Eventually.Proofs.Poll.History
import Eventually.Store.Faulty

namespace Eventually

namespace Faulty

def injected (operation : String) : StoreError := .backend ("injected failure on " ++ operation)

section Calls

variable {clock : Clock} {delay now : Duration} {operation : String}
  {call : Duration → σ → Reply σ β} {state : Faulty σ}

theorem reply_abandoned {waited : Duration}
    (hwaiting : now.nanos + waited.nanos < (clock.delayed now delay).nanos) :
    (reply clock delay operation call now state).abandoned waited = state := by
  obtain ⟨inner, remaining⟩ := state
  cases remaining with
  | succ => rfl
  | zero =>
      simp only [reply]
      rw [if_pos (by omega)]

theorem reply_failing {inner : σ} :
    (reply clock delay operation call now ⟨inner, faults + 1⟩).completion =
      some ⟨⟨(clock.delayed now delay).nanos - now.nanos⟩, .error (injected operation),
        ⟨inner, faults⟩⟩ := rfl

theorem reply_serving {inner : σ} :
    (reply clock delay operation call now ⟨inner, 0⟩).completion =
      (call (clock.delayed now delay) inner).completion.map fun c =>
        ⟨⟨(clock.delayed now delay).nanos - now.nanos + c.latency.nanos⟩, c.answer,
          ⟨c.state, 0⟩⟩ := rfl

-- No answer comes before the delay is over.
theorem delayed_le_of_mem {c : Completion (Faulty σ) β}
    (hc : c ∈ (reply clock delay operation call now state).completion) :
    (clock.delayed now delay).nanos ≤ now.nanos + c.latency.nanos := by
  have hdelay := clock.le_delayed now delay
  obtain ⟨inner, remaining⟩ := state
  cases remaining with
  | succ =>
      cases hc
      simp only
      omega
  | zero =>
      obtain ⟨d, _, rfl⟩ := Option.map_eq_some_iff.mp hc
      simp only
      omega

end Calls

-- A call through a front that fails some calls and delays none.
def front (clock : Clock) (operation : String) (query : Query σ β) : Query (Faulty σ) β where
  call := reply clock .zero operation query.call
  late := query.late

variable {clock : Clock} {operation : String} {query : Query σ β} {hidden : σ}

theorem front_call_succ (now : Duration) (hidden : σ) (faults : Nat) :
    ((front clock operation query).call now ⟨hidden, faults + 1⟩).completion =
      some ⟨.zero, .error (injected operation), ⟨hidden, faults⟩⟩ := by
  rw [front, reply_failing, clock.delayed_zero, Nat.sub_self]
  rfl

theorem front_call_zero (now : Duration) (hidden : σ) :
    ((front clock operation query).call now ⟨hidden, 0⟩).completion =
      (query.call now hidden).completion.map fun c => ⟨c.latency, c.answer, ⟨c.state, 0⟩⟩ := by
  simp only [front, reply_serving, clock.delayed_zero, Nat.sub_self, Nat.zero_add]

theorem reaches_inner {faults : Nat}
    (hreaches : (front clock operation query).Reaches ⟨hidden, faults⟩ now state) :
    query.Reaches hidden now state.inner := by
  induction hreaches with
  | start => exact .start
  | wait _ hle ih => exact ih.wait hle
  | @call now state _ c hc ih =>
      obtain ⟨current, remaining⟩ := state
      cases remaining with
      | succ remaining =>
          rw [front_call_succ] at hc
          cases hc
          exact ih.wait (Nat.le_add_right ..)
      | zero =>
          rw [front_call_zero] at hc
          obtain ⟨d, hd, rfl⟩ := Option.map_eq_some_iff.mp hc
          exact ih.call d hd

-- A front is as quick as the store behind it.
theorem front_atOnce (hprompt : query.AtOnce good hidden) (faults : Nat) :
    (front clock operation query).AtOnce (fun _ _ => True) ⟨hidden, faults⟩ := by
  intro now state hreaches
  have hinner := reaches_inner hreaches
  obtain ⟨current, remaining⟩ := state
  cases remaining with
  | succ remaining => exact ⟨_, _, front_call_succ now current remaining, trivial⟩
  | zero =>
      obtain ⟨answer, next, hcompletion, _⟩ := hprompt now current hinner
      refine ⟨answer, ⟨next, 0⟩, ?_, trivial⟩
      rw [front_call_zero, hcompletion]
      rfl

-- Calls through a front. The first ones fail, as many as there are failures, and the others are
-- answered from behind it.
structure Split (operation : String) (faults : Nat) (good : Duration → Except StoreError β → Prop)
    (exchanges failed served : List (Exchange β)) : Prop where
  exchanges_eq : exchanges = failed ++ served
  failed_length : failed.length = min faults exchanges.length
  failed_answer : ∀ e ∈ failed, e.answer = .error (injected operation)
  served_answer : ∀ e ∈ served, good e.finish e.answer

theorem calls_split {schedule : Schedule} {timer : Clock} {state : Faulty σ}
    (hprompt : query.AtOnce good hidden)
    (hcalls : (front clock operation query).Calls timer schedule now state exchanges last)
    (hreaches : query.Reaches hidden now state.inner) :
    ∃ failed served, Split operation state.remaining good exchanges failed served := by
  induction hcalls with
  | nil => exact ⟨[], [], rfl, by simp, List.forall_mem_nil _, List.forall_mem_nil _⟩
  | @cons begun state _ _ _ _ _ hstart hstep _ ih =>
      obtain ⟨current, remaining⟩ := state
      cases remaining with
      | succ remaining =>
          obtain ⟨rfl, rfl⟩ := hstep.of_atOnce (front_call_succ ..)
          obtain ⟨failed, served, rfl, hlength, hfailed, hserved⟩ := ih (hreaches.wait hstart)
          refine ⟨_ :: failed, served, rfl, ?_, List.forall_mem_cons.mpr ⟨rfl, hfailed⟩, hserved⟩
          simp only [List.length_cons, List.length_append] at hlength ⊢
          omega
      | zero =>
          obtain ⟨answer, after, hcompletion, hgood⟩ :=
            hprompt begun current (hreaches.wait hstart)
          have hfront : ((front clock operation query).call begun ⟨current, 0⟩).completion =
              some ⟨.zero, answer, ⟨after, 0⟩⟩ := by
            rw [front_call_zero, hcompletion]
            rfl
          obtain ⟨rfl, rfl⟩ := hstep.of_atOnce hfront
          obtain ⟨failed, served, rfl, hlength, _, hserved⟩ :=
            ih ((hreaches.wait hstart).call _ hcompletion)
          have hnone : failed = [] := List.eq_nil_of_length_eq_zero (by simpa using hlength)
          refine ⟨[], _ :: served, by rw [hnone]; rfl, by simp, List.forall_mem_nil _, ?_⟩
          exact List.forall_mem_cons.mpr ⟨hgood, hserved⟩

theorem calls_split_of_start {schedule : Schedule} {timer : Clock} {faults : Nat}
    (hprompt : query.AtOnce good hidden)
    (hcalls : (front clock operation query).Calls timer schedule .zero ⟨hidden, faults⟩ exchanges
      last) :
    ∃ failed served, Split operation faults good exchanges failed served :=
  calls_split hprompt hcalls .start

end Faulty

end Eventually
