import Eventually.Proofs.Poll.Absence

namespace Eventually.Watch

-- The courses that a poll can take. It does not know what to look for, or its last moment is too
-- late for a duration, or else it makes calls, all for the same thing.
inductive Course (lookup : Except IdentityError κ) (query : κ → Query σ β) (clock : Clock)
    (config : PollConfig) (state : σ) : Except Refusal (Run σ β ρ) → Prop
  | lost (hlookup : lookup = .error e) :
      Course lookup query clock config state (.ok (.refused state (.identity e)))
  | overflowing (hlookup : lookup = .ok sought) (hrange : ¬config.InRange) :
      Course lookup query clock config state (.error .durationOverflow)
  | calling {run : Run σ β ρ} (hlookup : lookup = .ok sought) (hrange : config.InRange)
      (hcalls : (query sought).Calls clock config.schedule .zero state run.exchanges run.state) :
      Course lookup query clock config state (.ok run)

-- A way of waiting takes one of the courses if it makes sure of what to look for and then of its
-- last moment before it makes its calls.
theorem Course.of_lookup {lookup : Except IdentityError κ} {query : κ → Query σ β} {clock : Clock}
    {config : PollConfig} {state : σ} {waited : Except Refusal (Run σ β ρ)}
    (hlost : ∀ e, lookup = .error e → waited = .ok (.refused state (.identity e)))
    (hoverflow : ∀ sought, lookup = .ok sought → config.schedule? = none →
      waited = .error .durationOverflow)
    (hcalling : ∀ sought, lookup = .ok sought → config.InRange → ∃ run, waited = .ok run ∧
      (query sought).Calls clock config.schedule .zero state run.exchanges run.state) :
    Course lookup query clock config state waited := by
  cases hlookup : lookup with
  | error e =>
      rw [hlost e hlookup]
      exact .lost rfl
  | ok sought =>
      by_cases hrange : config.InRange
      · obtain ⟨run, hrun, hcalls⟩ := hcalling sought hlookup hrange
        rw [hrun]
        exact .calling rfl hrange hcalls
      · rw [hoverflow sought hlookup (PollConfig.schedule?_eq_none hrange)]
        exact .overflowing rfl hrange

section

variable [Writable α] (watch : Watch α) (service : Service σ α) (clock : Clock) (state : σ)

theorem matching_course :
    Course watch.lookupKey (getQuery service) clock watch.config state
      (watch.matching service clock state) := by
  refine .of_lookup (fun _ hkey => matching_refused service clock state hkey) ?_ ?_
  · intro key hkey hschedule
    simp only [matching, hkey, hschedule]
  · intro key hkey hrange
    obtain ⟨run, hrun, hconcludes⟩ := matching_concludes service clock state hkey hrange
    exact ⟨run, hrun, hconcludes.calls⟩

theorem firstMatching_course :
    Course watch.lookupScope (listQuery service) clock watch.config state
      (watch.firstMatching service clock state) := by
  refine .of_lookup (fun _ hscope => firstMatching_refused service clock state hscope) ?_ ?_
  · intro scope hscope hschedule
    simp only [firstMatching, hscope, hschedule]
  · intro scope hscope hrange
    obtain ⟨run, hrun, hconcludes⟩ := firstMatching_concludes service clock state hscope hrange
    exact ⟨run, hrun, hconcludes.calls⟩

omit [Writable α] in
theorem deleted_course :
    Course watch.lookupKey (getQuery service) clock watch.config state
      (watch.deleted service clock state) := by
  refine .of_lookup (fun _ hkey => deleted_refused service clock state hkey) ?_ ?_
  · intro key hkey hschedule
    simp only [deleted, hkey, hschedule]
  · intro key hkey hrange
    obtain ⟨run, hrun, hceases⟩ := deleted_ceases service clock state hkey hrange
    exact ⟨run, hrun, hceases.calls⟩

end

end Eventually.Watch
