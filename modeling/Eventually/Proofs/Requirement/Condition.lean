import Eventually.Proofs.Assertion.Cooperative
import Eventually.Requirement.Condition

namespace Eventually

variable [Stamps]

namespace ConditionRequirement

def type : ConditionRequirement → String
  | present type => type
  | holds type _ _ => type
  | absent type => type

-- What a requirement asks of the condition that counts, if there is one.
def Meets : ConditionRequirement → Option Condition → Prop
  | present _, found => found.isSome
  | holds _ status reason, found =>
      ∃ c ∈ found, c.status = status ∧ ∀ expected ∈ reason, c.reason = some expected
  | absent _, found => found = none

-- The condition that counts after a fix, from the one that counted before.
def revise : ConditionRequirement → Option Condition → Option Condition
  | present type, found => some (found.getD { type, status := .unknown })
  | holds type status reason, found =>
      some (establish status reason (found.getD { type, status }))
  | absent _, _ => none

theorem failures_eq_nil_iff (conditions : Conditions) (r : ConditionRequirement) :
    r.failures conditions = [] ↔ r.Meets (Condition.find? conditions r.type) := by
  cases r with
  | present type => simp [failures, Meets, ConditionRequirement.type, Option.isSome_iff_ne_none]
  | holds type status reason =>
      simp only [failures, Meets, ConditionRequirement.type]
      cases Condition.find? conditions type with
      | none => simp
      | some c => cases reason <;> simp [statusFailures, reasonFailures]
  | absent type =>
      simp only [failures, Meets, ConditionRequirement.type]
      cases Condition.find? conditions type <;> simp

theorem leaf_holds_iff (r : ConditionRequirement) (conditions : Conditions) :
    r.leaf.Holds conditions ↔ r.Meets (Condition.find? conditions r.type) :=
  (Report.forall_failure_iff (r.failures conditions)).trans (failures_eq_nil_iff conditions r)

theorem find?_upsert (type other : String) (status : ConditionStatus) (reason : Option String)
    (conditions : Conditions) :
    Condition.find? (upsert type status reason conditions) other =
      if type = other then
        some (establish status reason
          ((Condition.find? conditions type).getD { type, status }))
      else Condition.find? conditions other := by
  induction conditions with
  | nil => by_cases hother : type = other <;> simp [upsert, Condition.find?, establish, hother]
  | cons c rest ih =>
      simp only [upsert]
      by_cases hc : c.type = type
      · by_cases hother : type = other <;> simp [Condition.find?, establish, hc, hother]
      · rw [if_neg hc]
        by_cases hother : c.type = other
        · have htype : ¬type = other := fun h => hc (hother.trans h.symm)
          simp [Condition.find?, hother, htype]
        · simp only [Condition.find?, List.find?_cons, hc, hother, decide_false] at ih ⊢
          exact ih

theorem find?_filter (type other : String) (conditions : Conditions) :
    Condition.find? (conditions.filter fun c => c.type ≠ type) other =
      if type = other then none else Condition.find? conditions other := by
  simp only [Condition.find?, List.find?_filter]
  split
  · rename_i hother
    subst hother
    simp
  · rename_i hother
    congr 1
    funext c
    by_cases hc : c.type = other
    · simp [hc, Ne.symm hother]
    · simp [hc]

-- A fix changes which condition counts for its own type only.
theorem find?_fix (conditions : Conditions) (r : ConditionRequirement) (other : String) :
    Condition.find? (r.fix conditions) other =
      if r.type = other then r.revise (Condition.find? conditions r.type)
      else Condition.find? conditions other := by
  cases r with
  | present type =>
      simp only [fix, ConditionRequirement.type, revise]
      cases hfound : Condition.find? conditions type with
      | some c =>
          by_cases hother : type = other
          · simp [← hother, hfound]
          · simp [hother]
      | none =>
          by_cases hother : type = other
          · subst hother
            simp only [Condition.find?] at hfound
            simp [Condition.find?, List.find?_append, hfound]
          · simp [Condition.find?, List.find?_append, hother]
  | holds type status reason => exact find?_upsert type other status reason conditions
  | absent type => exact find?_filter type other conditions

theorem meets_revise (r : ConditionRequirement) (found : Option Condition) :
    r.Meets (r.revise found) := by
  cases r with
  | present type => rfl
  | holds type status reason =>
      refine ⟨_, rfl, rfl, fun expected hexpected => ?_⟩
      obtain rfl : reason = some expected := hexpected
      rfl
  | absent type => rfl

-- Of two requirements that one condition can meet, fixing the second keeps the first: a reason
-- is overwritten only by a reason, and a condition that is there stays.
theorem meets_revise_of_compatible (r s : ConditionRequirement)
    (hboth : ∃ found, r.Meets found ∧ s.Meets found) (found : Option Condition)
    (hr : r.Meets found) : r.Meets (s.revise found) := by
  obtain ⟨both, hrboth, hsboth⟩ := hboth
  cases s with
  | present type =>
      cases r with
      | present other => rfl
      | holds other status reason =>
          obtain ⟨c, rfl, hc⟩ := hr
          exact ⟨c, rfl, hc⟩
      | absent other =>
          obtain rfl : both = none := hrboth
          cases hsboth
  | holds type status reason =>
      obtain ⟨b, rfl, hbstatus, hbreason⟩ := hsboth
      cases r with
      | present other => rfl
      | holds other status' reason' =>
          obtain ⟨_, ⟨⟩, hbstatus', hbreason'⟩ := hrboth
          obtain ⟨c, rfl, hcstatus, hcreason⟩ := hr
          refine ⟨_, rfl, hbstatus.symm.trans hbstatus', fun expected hexpected => ?_⟩
          cases reason with
          | none => exact hcreason expected hexpected
          | some given =>
              exact (hbreason given rfl).symm.trans (hbreason' expected hexpected)
      | absent other => cases hrboth
  | absent type =>
      obtain rfl : both = none := hsboth
      cases r with
      | present other => cases hrboth
      | holds other status reason =>
          obtain ⟨_, ⟨⟩, _⟩ := hrboth
      | absent other => rfl

theorem cooperative : Leaf.Cooperative (Set.range leaf) where
  establishes := by
    rintro _ ⟨r, rfl⟩ fix hfix conditions
    obtain rfl := Option.some.inj hfix
    rw [leaf_holds_iff, find?_fix, if_pos rfl]
    exact r.meets_revise _
  keeps := by
    rintro _ ⟨r, rfl⟩ _ ⟨s, rfl⟩ ⟨both, hrboth, hsboth⟩ fix hfix conditions hr
    obtain rfl := Option.some.inj hfix
    rw [leaf_holds_iff] at hrboth hsboth hr ⊢
    rw [find?_fix]
    split
    · rename_i htype
      rw [htype] at hsboth ⊢
      exact r.meets_revise_of_compatible s ⟨_, hrboth, hsboth⟩ _ hr
    · exact hr

end ConditionRequirement

end Eventually
