import Eventually.Proofs.Assertion.Monotone
import Eventually.Proofs.Requirement.Condition

namespace Eventually

variable [Stamps]

namespace ConditionRequirement

-- How much is wrong with the condition that counts.
def faults : ConditionRequirement → Option Condition → Nat
  | present _, some _ => 0
  | present _, none => 1
  | holds _ status reason, some c =>
      (if c.status = status then 0 else 1) +
        if ∀ expected ∈ reason, c.reason = some expected then 0 else 1
  | holds _ _ _, none => 1
  | absent _, some _ => 1
  | absent _, none => 0

-- What speaks for the condition that counts: that it is there or not, its status, and its reason.
-- A reason that is asked for also speaks for none being there, for then it is not missed apart.
def votes : ConditionRequirement → Option Condition → Nat
  | present _, some _ => 1
  | present _, none => 0
  | holds _ status reason, some c =>
      (if c.status = status then 1 else 0) + if reason.isSome ∧ c.reason = reason then 1 else 0
  | holds _ _ reason, none => if reason.isSome then 1 else 0
  | absent _, some _ => 0
  | absent _, none => 1

-- The votes that a requirement has.
def voices : ConditionRequirement → Nat
  | holds _ _ (some _) => 2
  | _ => 1

theorem faults_add_votes (r : ConditionRequirement) (found : Option Condition) :
    r.faults found + r.votes found = r.voices := by
  cases r with
  | present => cases found <;> rfl
  | absent => cases found <;> rfl
  | holds type status reason =>
      cases found with
      | none => cases reason <;> rfl
      | some c =>
          cases reason with
          | none => by_cases hstatus : c.status = status <;> simp [faults, votes, voices, hstatus]
          | some expected =>
              by_cases hstatus : c.status = status <;>
                by_cases hreason : c.reason = some expected <;>
                  simp [faults, votes, voices, hstatus, hreason]

theorem leaf_failureCount (r : ConditionRequirement) (conditions : Conditions) :
    r.leaf.failureCount conditions = r.faults (Condition.find? conditions r.type) := by
  have hcheck : r.leaf.check conditions = (r.failures conditions).map .failure := rfl
  rw [Leaf.failureCount_eq_length hcheck]
  cases r with
  | present type =>
      simp only [failures, ConditionRequirement.type]
      cases Condition.find? conditions type <;> rfl
  | holds type status reason =>
      simp only [failures, ConditionRequirement.type]
      cases Condition.find? conditions type with
      | none => rfl
      | some c =>
          simp only [faults, statusFailures, reasonFailures, List.length_append]
          cases reason <;> simp [apply_ite List.length]
  | absent type =>
      simp only [failures, ConditionRequirement.type]
      cases Condition.find? conditions type with
      | none => rfl
      | some c => rfl

-- All that a requirement has a say in is alike.
def Alike : ConditionRequirement → Option Condition → Option Condition → Prop
  | holds _ _ none, found, other => found.map Condition.status = other.map Condition.status
  | holds _ _ (some _), found, other =>
      found.map Condition.status = other.map Condition.status ∧
        found.bind Condition.reason = other.bind Condition.reason
  | _, found, other => found.isSome = other.isSome

theorem Alike.votes_eq {r : ConditionRequirement} {found other : Option Condition}
    (halike : r.Alike found other) : r.votes found = r.votes other := by
  cases found <;> cases other <;> rcases r with _ | ⟨_, _, _ | _⟩ | _ <;>
    simp_all [Alike, votes]

theorem alike_revise_self (r : ConditionRequirement) (found other : Option Condition) :
    r.Alike (r.revise found) (r.revise other) := by
  rcases r with _ | ⟨_, _, _ | _⟩ | _ <;> simp [Alike, revise, establish]

theorem Alike.revise {r : ConditionRequirement} {found other : Option Condition}
    (halike : r.Alike found other) (s : ConditionRequirement) :
    r.Alike (s.revise found) (s.revise other) := by
  cases s <;> cases found <;> cases other <;> rcases r with _ | ⟨_, _, _ | _⟩ | _ <;>
    simp_all [Alike, ConditionRequirement.revise, establish]

-- What requirements on one type make of the condition that counts.
def settle (rs : List ConditionRequirement) (found : Option Condition) : Option Condition :=
  rs.foldl (fun found r => r.revise found) found

-- Whatever was there before, what a requirement has a say in is settled by it and by those behind
-- it.
theorem alike_settle (rs : List ConditionRequirement) (found other : Option Condition) :
    ∀ r ∈ rs, r.Alike (settle rs found) (settle rs other) := by
  have hkept (rest : List ConditionRequirement) {r : ConditionRequirement}
      {found other : Option Condition} (halike : r.Alike found other) :
      r.Alike (settle rest found) (settle rest other) := by
    induction rest generalizing found other with
    | nil => exact halike
    | cons s rest ih => exact ih (halike.revise s)
  induction rs generalizing found other with
  | nil => exact List.forall_mem_nil _
  | cons r rest ih =>
      exact List.forall_mem_cons.mpr
        ⟨hkept rest (r.alike_revise_self found other), ih (r.revise found) (r.revise other)⟩

def voteTotal (rs : List ConditionRequirement) (found : Option Condition) : Nat :=
  (rs.map fun r => r.votes found).sum

-- Nothing has more votes than what requirements on one type settle on.
def Prevail (rs : List ConditionRequirement) : Prop :=
  ∀ found, voteTotal rs found ≤ voteTotal rs (settle rs none)

theorem voteTotal_settle (rs : List ConditionRequirement) (found other : Option Condition) :
    voteTotal rs (settle rs found) = voteTotal rs (settle rs other) :=
  congrArg List.sum <| List.map_congr_left fun r hr => (alike_settle rs found other r hr).votes_eq

-- Requirements that look at the condition that counts and revise it, wherever it is kept.
structure Watched (leaf : ConditionRequirement → Leaf α) (found : α → Option Condition)
    (rs : List ConditionRequirement) : Prop where
  failureCount_eq : ∀ r ∈ rs, ∀ obj, (leaf r).failureCount obj = r.faults (found obj)
  revises : ∀ r ∈ rs, ∃ fix ∈ (leaf r).fixer, ∀ obj, found (fix obj) = r.revise (found obj)
  exists_alike : ∀ other, ∃ obj, ∀ r : ConditionRequirement, r.Alike (found obj) other

namespace Watched

variable {leaf : ConditionRequirement → Leaf α} {found : α → Option Condition}
  {rs : List ConditionRequirement}

theorem failureTotal_add_voteTotal (hwatched : Watched leaf found rs) (obj : α) :
    Leaf.failureTotal leaf rs obj + voteTotal rs (found obj) = (rs.map voices).sum := by
  have hsum : (rs.map voices).sum =
      (rs.map fun r => (leaf r).failureCount obj + r.votes (found obj)).sum := by
    refine congrArg List.sum (List.map_congr_left fun r hr => ?_)
    rw [hwatched.failureCount_eq r hr, faults_add_votes]
  rw [hsum, List.sum_map_add]
  rfl

theorem found_fixAll (hrevises : ∀ r ∈ rs, ∃ fix ∈ (leaf r).fixer,
    ∀ obj, found (fix obj) = r.revise (found obj)) (obj : α) :
    found (Leaf.fixAll leaf rs obj) = settle rs (found obj) := by
  induction rs generalizing obj with
  | nil => rfl
  | cons r rest ih =>
      obtain ⟨hr, hrest⟩ := List.forall_mem_cons.mp hrevises
      obtain ⟨fix, hfix, hfound⟩ := hr
      have hcons : Leaf.fixAll leaf (r :: rest) obj = Leaf.fixAll leaf rest (fix obj) := by
        simp only [Leaf.fixAll, applyFixers, List.map_cons, List.foldl_cons,
          Option.mem_def.mp hfix, Option.elim]
      rw [hcons, ih hrest (fix obj), hfound]
      rfl

-- Failures are the votes that are lost.
theorem improve_iff (hwatched : Watched leaf found rs) : Leaf.Improve leaf rs ↔ Prevail rs := by
  have hcopy (obj : α) : voteTotal rs (found (Leaf.fixAll leaf rs obj)) =
      voteTotal rs (settle rs none) := by
    rw [found_fixAll hwatched.revises]
    exact voteTotal_settle rs (found obj) none
  constructor
  · intro himprove other
    obtain ⟨obj, halike⟩ := hwatched.exists_alike other
    have hother : voteTotal rs (found obj) = voteTotal rs other :=
      congrArg List.sum (List.map_congr_left fun r _ => (halike r).votes_eq)
    have hbefore := hwatched.failureTotal_add_voteTotal obj
    have hafter := hwatched.failureTotal_add_voteTotal (Leaf.fixAll leaf rs obj)
    have hle := himprove obj
    rw [hcopy] at hafter
    omega
  · intro hprevail obj
    have hbefore := hwatched.failureTotal_add_voteTotal obj
    have hafter := hwatched.failureTotal_add_voteTotal (Leaf.fixAll leaf rs obj)
    have hle := hprevail (found obj)
    rw [hcopy] at hafter
    omega

end Watched

end ConditionRequirement

end Eventually
