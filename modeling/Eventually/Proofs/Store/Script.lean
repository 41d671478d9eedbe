import Eventually.Proofs.Poll.History
import Eventually.Store.Script

namespace Eventually

namespace Script

-- A script answers with one of its cues.
theorem exists_cue {cues : List (Cue α)} {ofObjects : List α → Except StoreError β} {asked : Key}
    {c : Completion Nat β} (hc : c ∈ (reply clock cues asked ofObjects now calls).completion) :
    ∃ cue ∈ cues, Cue.answer? asked ofObjects cue.line = some c.answer := by
  simp only [reply, Option.bind_eq_bind, Option.mem_def, Option.bind_eq_some_iff] at hc
  obtain ⟨cue, hcue, answer, hanswer, hcompletion⟩ := hc
  cases hcompletion
  refine ⟨cue, ?_, hanswer⟩
  rcases Option.or_eq_some_iff.mp hcue with hnow | ⟨_, hlast⟩
  · exact List.mem_of_getElem? hnow
  · exact List.mem_of_getLast? hlast

-- A store that always gives the same answer, and at once.
def steady (line : Line α) : Service Nat α := service .milliseconds [⟨.zero, line⟩]

variable {query : Query Nat β} {line : Line α} {ofObjects : List α → Except StoreError β}

theorem steady_completion
    (hquery : query.call = reply .milliseconds [⟨.zero, line⟩] asked ofObjects)
    (hanswer : Cue.answer? asked ofObjects line = some answer) (now : Duration) (calls : Nat) :
    (query.call now calls).completion = some ⟨.zero, answer, calls + 1⟩ := by
  rw [hquery]
  cases calls <;> simp [reply, cue?, hanswer, Clock.delayed, Duration.zero]

theorem steady_atOnce (hquery : query.call = reply .milliseconds [⟨.zero, line⟩] asked ofObjects)
    (hanswer : Cue.answer? asked ofObjects line = some answer)
    (hgood : ∀ now, good now answer) (calls : Nat) : query.AtOnce good calls := by
  intro now current _
  exact ⟨answer, current + 1, steady_completion hquery hanswer now current, hgood now⟩

end Script

end Eventually
