import Eventually.Proofs.Requirement.Condition
import Eventually.Proofs.Requirement.Metadata
import Eventually.Requirement.Part
import Eventually.Requirement.Space
import Eventually.Requirement.UserSignup

namespace Eventually

variable [Stamps]

-- Metadata, conditions and the content of its own lie apart in an object: writing one of them
-- changes neither of the others.
structure Separated [WithMetadata α] [WithConditions α] (own : ρ → Leaf α) : Prop where
  metadata_setMetadata : ∀ (a : α) m, WithMetadata.metadata (WithMetadata.setMetadata a m) = m
  setMetadata_setMetadata : ∀ (a : α) m n,
    WithMetadata.setMetadata (WithMetadata.setMetadata a m) n = WithMetadata.setMetadata a n
  metadata_setConditions : ∀ (a : α) c,
    WithMetadata.metadata (WithConditions.setConditions a c) = WithMetadata.metadata a
  conditions_setConditions : ∀ (a : α) c,
    WithConditions.conditions (WithConditions.setConditions a c) = c
  setConditions_setConditions : ∀ (a : α) c d,
    WithConditions.setConditions (WithConditions.setConditions a c) d =
      WithConditions.setConditions a d
  conditions_setMetadata : ∀ (a : α) m,
    WithConditions.conditions (WithMetadata.setMetadata a m) = WithConditions.conditions a
  check_setMetadata : ∀ r a m, (own r).check (WithMetadata.setMetadata a m) = (own r).check a
  check_setConditions : ∀ r a c,
    (own r).check (WithConditions.setConditions a c) = (own r).check a
  metadata_fix : ∀ r, ∀ fix ∈ (own r).fixer, ∀ a,
    WithMetadata.metadata (fix a) = WithMetadata.metadata a
  conditions_fix : ∀ r, ∀ fix ∈ (own r).fixer, ∀ a,
    WithConditions.conditions (fix a) = WithConditions.conditions a

section

variable {α : Type} [WithMetadata α] [WithConditions α] [KindName α] {own : ρ → Leaf α}

namespace Leaf

def onMetadata (α : Type) [WithMetadata α] [KindName α] : Set (Leaf α) :=
  Leaf.through (Lens.metadata α) '' Set.range MetadataRequirement.leaf

def onConditions (α : Type) [WithConditions α] [KindName α] : Set (Leaf α) :=
  Leaf.through (Lens.conditions α) '' Set.range ConditionRequirement.leaf

-- The leaves that a domain has fixers for.
def domain (own : ρ → Leaf α) : Set (Leaf α) :=
  Set.range own ∪ (onMetadata α ∪ onConditions α)

omit [WithConditions α] in
theorem fix_onMetadata {l : Leaf α} (hl : l ∈ onMetadata α) {fix : α → α} (hfix : fix ∈ l.fixer)
    (obj : α) : ∃ m, fix obj = WithMetadata.setMetadata obj m := by
  obtain ⟨_, ⟨r, rfl⟩, rfl⟩ := hl
  obtain rfl := Option.some.inj hfix
  exact ⟨r.fix (WithMetadata.metadata obj), rfl⟩

omit [WithMetadata α] in
theorem fix_onConditions {l : Leaf α} (hl : l ∈ onConditions α) {fix : α → α}
    (hfix : fix ∈ l.fixer) (obj : α) : ∃ c, fix obj = WithConditions.setConditions obj c := by
  obtain ⟨_, ⟨r, rfl⟩, rfl⟩ := hl
  obtain rfl := Option.some.inj hfix
  exact ⟨r.fix (WithConditions.conditions obj), rfl⟩

omit [WithConditions α] in
theorem check_onMetadata {l : Leaf α} (hl : l ∈ onMetadata α) {first second : α}
    (hsame : WithMetadata.metadata first = WithMetadata.metadata second) :
    l.check first = l.check second := by
  obtain ⟨m, _, rfl⟩ := hl
  exact congrArg m.check hsame

omit [WithMetadata α] in
theorem check_onConditions {l : Leaf α} (hl : l ∈ onConditions α) {first second : α}
    (hsame : WithConditions.conditions first = WithConditions.conditions second) :
    l.check first = l.check second := by
  obtain ⟨m, _, rfl⟩ := hl
  exact congrArg m.check hsame

end Leaf

namespace Separated

theorem metadata_lawful (hseparated : Separated own) : (Lens.metadata α).Lawful where
  get?_isSome _ := rfl
  reach_eq := by
    intro reach hreach a
    obtain rfl := Option.some.inj hreach
    refine ⟨_, rfl, rfl, WithMetadata.set_get a, fun m => ?_⟩
    have hput : WithMetadata.setMetadata (WithMetadata.setMetadata a m) =
        WithMetadata.setMetadata a := funext (hseparated.setMetadata_setMetadata a m)
    simp only [hseparated.metadata_setMetadata, hput]

theorem conditions_lawful (hseparated : Separated own) : (Lens.conditions α).Lawful where
  get?_isSome _ := rfl
  reach_eq := by
    intro reach hreach a
    obtain rfl := Option.some.inj hreach
    refine ⟨_, rfl, rfl, WithConditions.set_get a, fun c => ?_⟩
    have hput : WithConditions.setConditions (WithConditions.setConditions a c) =
        WithConditions.setConditions a := funext (hseparated.setConditions_setConditions a c)
    simp only [hseparated.conditions_setConditions, hput]

theorem metadata_undisturbed (hseparated : Separated own) :
    Leaf.Undisturbed (Leaf.onMetadata α) (Leaf.onConditions α) := by
  intro a ha b hb fix hfix obj
  obtain ⟨c, hc⟩ := Leaf.fix_onConditions hb hfix obj
  apply Leaf.check_onMetadata ha
  rw [hc, hseparated.metadata_setConditions]

theorem conditions_undisturbed (hseparated : Separated own) :
    Leaf.Undisturbed (Leaf.onConditions α) (Leaf.onMetadata α) := by
  intro a ha b hb fix hfix obj
  obtain ⟨m, hm⟩ := Leaf.fix_onMetadata hb hfix obj
  apply Leaf.check_onConditions ha
  rw [hm, hseparated.conditions_setMetadata]

theorem own_undisturbed (hseparated : Separated own) :
    Leaf.Undisturbed (Set.range own) (Leaf.onMetadata α ∪ Leaf.onConditions α) := by
  intro a ha b hb fix hfix obj
  obtain ⟨r, rfl⟩ := ha
  rcases hb with hb | hb
  · obtain ⟨m, hm⟩ := Leaf.fix_onMetadata hb hfix obj
    rw [hm, hseparated.check_setMetadata]
  · obtain ⟨c, hc⟩ := Leaf.fix_onConditions hb hfix obj
    rw [hc, hseparated.check_setConditions]

theorem undisturbed_by_own (hseparated : Separated own) :
    Leaf.Undisturbed (Leaf.onMetadata α ∪ Leaf.onConditions α) (Set.range own) := by
  intro a ha b hb fix hfix obj
  obtain ⟨r, rfl⟩ := hb
  rcases ha with ha | ha
  · exact Leaf.check_onMetadata ha (hseparated.metadata_fix r fix hfix obj)
  · exact Leaf.check_onConditions ha (hseparated.conditions_fix r fix hfix obj)

theorem cooperative (hseparated : Separated own) (hown : Leaf.Cooperative (Set.range own)) :
    Leaf.Cooperative (Leaf.domain own) := by
  have hmetadata : Leaf.Cooperative (Leaf.onMetadata α) :=
    MetadataRequirement.writes.cooperative.through hseparated.metadata_lawful
  have hconditions : Leaf.Cooperative (Leaf.onConditions α) :=
    ConditionRequirement.cooperative.through hseparated.conditions_lawful
  have hparts := hmetadata.union hconditions hseparated.metadata_undisturbed
    hseparated.conditions_undisturbed
  exact hown.union hparts hseparated.own_undisturbed hseparated.undisturbed_by_own

end Separated

end

-- The places of an object that the requirements of its own kind look at.

namespace Space

inductive Place where
  | tier
  | targetCluster
deriving DecidableEq

def read (space : Space) : Place → Option String
  | .tier => some space.tier
  | .targetCluster => space.targetCluster

end Space

namespace UserSignup

inductive Place where
  | username
  | approved
deriving DecidableEq

def read (signup : UserSignup) : Place → String ⊕ Bool
  | .username => .inl signup.username
  | .approved => .inr signup.approved

end UserSignup

namespace SpaceRequirement

def place : SpaceRequirement → Space.Place
  | tier _ => .tier
  | targetCluster _ => .targetCluster

def wanted : SpaceRequirement → Option String
  | tier t => some t
  | targetCluster c => some c

theorem failures_eq_nil_iff (space : Space) (r : SpaceRequirement) :
    r.failures space = [] ↔ space.read r.place = r.wanted := by
  cases r with
  | tier t => simp [failures, Space.read, place, wanted]
  | targetCluster c =>
      cases hcluster : space.targetCluster <;>
        simp [failures, Space.read, place, wanted, hcluster]

theorem leaf_holds_iff (r : SpaceRequirement) (space : Space) :
    r.leaf.Holds space ↔ space.read r.place = r.wanted :=
  (Report.forall_failure_iff (r.failures space)).trans (failures_eq_nil_iff space r)

theorem writes : Leaf.Writes leaf Space.read place wanted where
  holds_iff := leaf_holds_iff
  exists_fix r := ⟨_, rfl, fun space p => by cases r <;> cases p <;> rfl⟩

theorem separated : Separated leaf where
  metadata_setMetadata _ _ := rfl
  setMetadata_setMetadata _ _ _ := rfl
  metadata_setConditions _ _ := rfl
  conditions_setConditions _ _ := rfl
  setConditions_setConditions _ _ _ := rfl
  conditions_setMetadata _ _ := rfl
  check_setMetadata r _ _ := by cases r <;> rfl
  check_setConditions r _ _ := by cases r <;> rfl
  metadata_fix r fix hfix a := by
    obtain rfl := Option.some.inj hfix
    cases r <;> rfl
  conditions_fix r fix hfix a := by
    obtain rfl := Option.some.inj hfix
    cases r <;> rfl

end SpaceRequirement

namespace UserSignupRequirement

def place : UserSignupRequirement → UserSignup.Place
  | username _ => .username
  | approved _ => .approved

def wanted : UserSignupRequirement → String ⊕ Bool
  | username u => .inl u
  | approved flag => .inr flag

theorem failures_eq_nil_iff (signup : UserSignup) (r : UserSignupRequirement) :
    r.failures signup = [] ↔ signup.read r.place = r.wanted := by
  cases r <;> simp [failures, UserSignup.read, place, wanted]

theorem leaf_holds_iff (r : UserSignupRequirement) (signup : UserSignup) :
    r.leaf.Holds signup ↔ signup.read r.place = r.wanted :=
  (Report.forall_failure_iff (r.failures signup)).trans (failures_eq_nil_iff signup r)

theorem writes : Leaf.Writes leaf UserSignup.read place wanted where
  holds_iff := leaf_holds_iff
  exists_fix r := ⟨_, rfl, fun signup p => by cases r <;> cases p <;> rfl⟩

theorem separated : Separated leaf where
  metadata_setMetadata _ _ := rfl
  setMetadata_setMetadata _ _ _ := rfl
  metadata_setConditions _ _ := rfl
  conditions_setConditions _ _ := rfl
  setConditions_setConditions _ _ _ := rfl
  conditions_setMetadata _ _ := rfl
  check_setMetadata r _ _ := by cases r <;> rfl
  check_setConditions r _ _ := by cases r <;> rfl
  metadata_fix r fix hfix a := by
    obtain rfl := Option.some.inj hfix
    cases r <;> rfl
  conditions_fix r fix hfix a := by
    obtain rfl := Option.some.inj hfix
    cases r <;> rfl

end UserSignupRequirement

end Eventually
