import Eventually.Proofs.Assertion.Leaves
import Eventually.Requirement.Condition
import Eventually.Requirement.Metadata
import Eventually.Requirement.Part
import Eventually.Requirement.Space
import Eventually.Requirement.UserSignup
import Mathlib.Data.Set.Operations

namespace Eventually

-- A lens from objects to their own type. It may fail, and otherwise hands on the object itself.
structure Lens.Identity (lens : Lens α α) : Prop where
  get?_eq : ∀ a part, lens.get? a = some part → part = a
  projects : lens.Projects
  access_eq : ∀ a x, lens.access a = .found x → x.part = a ∧ ∀ part, x.put part = part

theorem Lens.guarded_identity (kind : String) (readable : α → Bool)
    (writable : Option (α → Bool)) : (Lens.guarded kind readable writable).Identity where
  get?_eq a part hpart := by
    simp only [Lens.guarded, Option.ite_none_right_eq_some, Option.some.injEq] at hpart
    exact hpart.2.symm
  projects a := by
    cases writable with
    | none => rfl
    | some test => by_cases ha : test a <;> simp [Lens.guarded, Lens.access, ha] <;> rfl
  access_eq a x hx := by
    cases writable with
    | none => cases hx
    | some test =>
        by_cases ha : test a
        · simp only [Lens.guarded, Lens.access, Option.map_some, ha, ↓reduceIte,
            Access.found.injEq] at hx
          rw [← hx]
          exact ⟨rfl, fun _ => rfl⟩
        · simp [Lens.guarded, Lens.access, ha] at hx

-- Lenses from a type to itself that a domain allows, which may depend on the type.
abbrev Turns := ∀ α : Type, Lens α α → Prop

-- Any lens that hands on the object itself.
def Turns.identities : Turns := fun _ lens => lens.Identity

-- Those that never fail.
def Turns.total : Turns := fun _ lens => lens.Identity ∧ lens.Lawful

-- What can be made of atoms and of closures, which only check, by nesting in checklists, by further
-- handles and by the lenses in `turns`.
inductive Assertion.Built (turns : Turns) (atom : Assertion α → Prop) : Assertion α → Prop where
  | atom {a : Assertion α} (hatom : atom a) : Built turns atom a
  | closure {l : Leaf α} (hname : l.name = none) (hscope : l.scope = none)
      (hfixer : l.fixer = none) : Built turns atom (.leaf l)
  | all {members : Checklist α} (hmembers : ∀ a ∈ members.toList, Built turns atom a) :
      Built turns atom (.all members)
  | shared {inner : Assertion α} (hinner : Built turns atom inner) :
      Built turns atom (.shared inner)
  | turn {lens : Lens α α} {inner : Assertion α} (hlens : turns α lens)
      (hinner : Built turns atom inner) : Built turns atom (.lift lens inner)

-- What holds of the leaves of atoms and of closures and is kept by the lenses holds of all leaves.
theorem Assertion.Built.forall_leaves {turns : Turns} {atom : Assertion α → Prop}
    {property : Leaf α → Prop} (hatom : ∀ a, atom a → ∀ l ∈ a.leaves, property l)
    (hclosure : ∀ l, l.name = none → l.scope = none → l.fixer = none → property l)
    (hturn : ∀ lens, turns α lens → ∀ l, property l → property (l.through lens))
    {a : Assertion α} (ha : a.Built turns atom) : ∀ l ∈ a.leaves, property l := by
  induction ha with
  | atom ha => exact hatom _ ha
  | closure hname hscope hfixer =>
      intro l hl
      obtain rfl := List.mem_singleton.mp hl
      exact hclosure l hname hscope hfixer
  | all _ ih =>
      intro l hl
      obtain ⟨a, ha, hla⟩ := (Checklist.mem_leaves_iff _ l).mp hl
      exact ih a ha l hla
  | shared _ ih => exact ih
  | turn hlens _ ih =>
      intro l hl
      obtain ⟨m, hm, rfl⟩ := List.mem_map.mp hl
      exact hturn _ hlens m (ih m hm)

-- More lenses and more atoms make more assertions.
theorem Assertion.Built.mono {turns wider : Turns} {atom other : Assertion α → Prop}
    (hturns : ∀ lens, turns α lens → wider α lens) (hatom : ∀ a, atom a → other a)
    {a : Assertion α} (ha : a.Built turns atom) : a.Built wider other := by
  induction ha with
  | atom ha => exact .atom (hatom _ ha)
  | closure hname hscope hfixer => exact .closure hname hscope hfixer
  | all _ ih => exact .all ih
  | shared _ ih => exact .shared ih
  | turn hlens _ ih => exact .turn (hturns _ hlens) ih

def Assertion.IsLeafOf (leaf : ρ → Leaf α) (a : Assertion α) : Prop := ∃ r, a = .leaf (leaf r)

theorem Assertion.IsLeafOf.mem_range {leaf : ρ → Leaf α} {a : Assertion α}
    (ha : a.IsLeafOf leaf) : ∀ l ∈ a.leaves, l ∈ Set.range leaf := by
  obtain ⟨r, rfl⟩ := ha
  intro l hl
  exact ⟨r, (List.mem_singleton.mp hl).symm⟩

variable [Stamps]

namespace Assertion

-- The assertions of a domain: requirements of its own kind, and requirements on the metadata
-- and on the conditions of its objects.
inductive InDomain [WithMetadata α] [WithConditions α] [KindName α] (turns : Turns)
    (own : ρ → Leaf α) : Assertion α → Prop where
  | own (r : ρ) : InDomain turns own (.leaf (own r))
  | metadata {inner : Assertion Metadata}
      (hinner : inner.Built turns (IsLeafOf MetadataRequirement.leaf)) :
      InDomain turns own (onMetadata inner)
  | conditions {inner : Assertion Conditions}
      (hinner : inner.Built turns (IsLeafOf ConditionRequirement.leaf)) :
      InDomain turns own (onConditions inner)

end Assertion

def Checklist.InDomain [WithMetadata α] [WithConditions α] [KindName α] (turns : Turns)
    (own : ρ → Leaf α) (list : Checklist α) : Prop :=
  ∀ a ∈ list.toList, a.Built turns (Assertion.InDomain turns own)

-- The domain of spaces and that of user signups.
abbrev Checklist.OnSpaces (turns : Turns) : Checklist Space → Prop :=
  InDomain turns SpaceRequirement.leaf

abbrev Checklist.OnUserSignups (turns : Turns) : Checklist UserSignup → Prop :=
  InDomain turns UserSignupRequirement.leaf

theorem Assertion.InDomain.mono [WithMetadata α] [WithConditions α] [KindName α]
    {turns wider : Turns} (hturns : ∀ β lens, turns β lens → wider β lens) {own : ρ → Leaf α}
    {a : Assertion α} (ha : a.InDomain turns own) : a.InDomain wider own := by
  cases ha with
  | own r => exact .own r
  | metadata hinner => exact .metadata (hinner.mono (hturns Metadata) fun _ hatom => hatom)
  | conditions hinner => exact .conditions (hinner.mono (hturns Conditions) fun _ hatom => hatom)

theorem Checklist.InDomain.mono [WithMetadata α] [WithConditions α] [KindName α]
    {turns wider : Turns} (hturns : ∀ β lens, turns β lens → wider β lens) {own : ρ → Leaf α}
    {list : Checklist α} (hlist : list.InDomain turns own) : list.InDomain wider own :=
  fun a ha => (hlist a ha).mono (hturns α) fun _ => Assertion.InDomain.mono hturns

end Eventually
