import Eventually.Proofs.Poll.Trace

namespace Eventually

-- What a store holds at one time: the object under each key, and the objects of each scope.
structure Contents (α : Type) where
  object? : Key → Option α
  listed : Option String → List α

namespace Contents

def fetch (contents : Contents α) (key : Key) : Except StoreError α :=
  match contents.object? key with
  | some obj => .ok obj
  | none => .error (.notFound key)

end Contents

-- Whoever writes to a store and whenever, its contents have been something at each time.
abbrev History (α : Type) := Duration → Contents α

namespace Query

-- The states that calls can leave which are all waited for, and the time since when. Between two
-- calls any time may pass.
inductive Reaches (query : Query σ β) (state : σ) : Duration → σ → Prop
  | start : Reaches query state .zero state
  | wait (hreaches : Reaches query state now current) (hle : now.nanos ≤ later.nanos) :
      Reaches query state later current
  | call (hreaches : Reaches query state now current) (c : Completion σ β)
      (hc : c ∈ (query.call now current).completion) :
      Reaches query state ⟨now.nanos + c.latency.nanos⟩ c.state

-- A store that answers at once, whenever it is called, and each time with an answer that is good
-- then.
def AtOnce (query : Query σ β) (good : Duration → Except StoreError β → Prop) (state : σ) : Prop :=
  ∀ now current, query.Reaches state now current →
    ∃ answer next, (query.call now current).completion = some ⟨.zero, answer, next⟩ ∧
      good now answer

-- No budget is too small for an answer that needs no time.
theorem Step.of_atOnce {query : Query σ β}
    (hcompletion : (query.call now state).completion = some ⟨.zero, answer, after⟩)
    (hstep : query.Step clock schedule now state e next) :
    e = ⟨now, schedule.budget now, now, answer⟩ ∧ next = after := by
  cases hstep with
  | answered c hc =>
      rw [hcompletion] at hc
      cases hc
      exact ⟨rfl, rfl⟩
  | elapsed hlate =>
      have hbeyond := hlate _ hcompletion
      have hdeadline := clock.le_deadline now (schedule.budget now)
      simp only [Duration.zero] at hbeyond
      omega

theorem AtOnce.step {query : Query σ β} (hprompt : query.AtOnce good start)
    (hreaches : query.Reaches start now state)
    (hstep : query.Step clock schedule now state e next) :
    e.finish = now ∧ good now e.answer ∧ query.Reaches start now next := by
  obtain ⟨answer, after, hcompletion, hgood⟩ := hprompt now state hreaches
  obtain ⟨rfl, rfl⟩ := hstep.of_atOnce hcompletion
  exact ⟨rfl, hgood, hreaches.call _ hcompletion⟩

-- An answer says what is true at its time, or it is a fault that may happen then.
def Tells (truth : Duration → Except StoreError β) (fault : Duration → StoreError → Prop)
    (now : Duration) (answer : Except StoreError β) : Prop :=
  answer = truth now ∨ ∃ e, answer = .error e ∧ fault now e

-- A store that answers at once, whenever it is called.
def Follows (query : Query σ β) (truth : Duration → Except StoreError β)
    (fault : Duration → StoreError → Prop) (state : σ) : Prop :=
  ∀ now current, query.Reaches state now current →
    ∃ answer next, (query.call now current).completion = some ⟨.zero, answer, next⟩ ∧
      Tells truth fault now answer

theorem Follows.step {query : Query σ β} (hfollows : query.Follows truth fault start)
    (hreaches : query.Reaches start now state)
    (hstep : query.Step clock schedule now state e next) :
    e.finish = now ∧ Tells truth fault now e.answer ∧ query.Reaches start now next :=
  AtOnce.step hfollows hreaches hstep

end Query

end Eventually
