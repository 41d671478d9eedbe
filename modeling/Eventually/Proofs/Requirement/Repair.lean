import Eventually.Proofs.Requirement.Domain
import Eventually.Proofs.Requirement.Parts
import Eventually.Resource.Standard

namespace Eventually

-- A leaf that an identity lens makes no less fixable is not changed by it at all.
theorem Lens.Identity.through_eq {lens : Lens α α} (hidentity : lens.Identity)
    (hlawful : lens.Lawful) {l : Leaf α} (hfixable : (l.through lens).Fixable) :
    l.through lens = l := by
  have hget : ∀ a, lens.get? a = some a := by
    intro a
    obtain ⟨part, hpart⟩ := Option.isSome_iff_exists.mp (hlawful.get?_isSome a)
    rw [hpart, hidentity.get?_eq a part hpart]
  have hfixer : lens.fixer? l.fixer = l.fixer := by
    simp only [Leaf.Fixable, Leaf.through, fixer?] at hfixable ⊢
    split at hfixable
    · rename_i reach fix hreach hfix
      rw [hfix]
      refine congrArg some (funext fun a => ?_)
      obtain ⟨x, hx, _⟩ := hlawful.reach_eq reach hreach a
      have haccess : lens.access a = .found x := by simp only [access, hreach, hx]
      obtain ⟨hpart, hput⟩ := hidentity.access_eq a x haccess
      rw [hx, Access.change, hput, hpart]
    · cases hfixable
  simp only [Leaf.through, hget, hfixer]

namespace Assertion.Built

variable {turns : Turns} {atom : Assertion α → Prop}

theorem lawful (hturns : ∀ lens, turns α lens → lens.Lawful) (hatom : ∀ a, atom a → a.Lawful)
    {a : Assertion α} (ha : a.Built turns atom) : a.Lawful := by
  induction ha with
  | atom ha => exact hatom _ ha
  | closure => trivial
  | all _ ih => exact (Checklist.lawful_iff _).mpr ih
  | shared _ ih => exact ih
  | turn hlens _ ih => exact ⟨hturns _ hlens, ih⟩

-- Nesting and total identities bring up no fixable leaf that the atoms do not have.
theorem fixable_mem (hturns : ∀ lens, turns α lens → lens.Identity ∧ lens.Lawful)
    {family : Set (Leaf α)} (hatom : ∀ a, atom a → ∀ l ∈ a.leaves, l.Fixable → l ∈ family)
    {a : Assertion α} (ha : a.Built turns atom) : ∀ l ∈ a.leaves, l.Fixable → l ∈ family := by
  refine ha.forall_leaves hatom ?_ ?_
  · intro l _ _ hfixer hfixable
    rw [Leaf.Fixable, hfixer] at hfixable
    cases hfixable
  · intro lens hlens l hl hfixable
    have heq := (hturns lens hlens).1.through_eq (hturns lens hlens).2 hfixable
    rw [heq] at hfixable ⊢
    exact hl hfixable

end Assertion.Built

theorem Leaf.Fixable.of_through {lens : Lens α β} {l : Leaf β}
    (hfixable : (l.through lens).Fixable) : l.Fixable := by
  simp only [Fixable, through, Lens.fixer?] at hfixable ⊢
  split at hfixable
  · rename_i hfix
    rw [hfix, Option.isSome_some]
  · cases hfixable

theorem Assertion.IsLeafOf.lawful {leaf : ρ → Leaf α} {a : Assertion α} (ha : a.IsLeafOf leaf) :
    a.Lawful := by
  obtain ⟨r, rfl⟩ := ha
  trivial

section

variable [Stamps]

section

variable [WithMetadata α] [WithConditions α] [KindName α] {own : ρ → Leaf α}

namespace Separated

theorem inDomain_lawful (hseparated : Separated own) {a : Assertion α}
    (ha : a.InDomain .total own) : a.Lawful := by
  cases ha with
  | own r => trivial
  | metadata hinner =>
      exact ⟨hseparated.metadata_lawful,
        hinner.lawful (fun _ hlens => hlens.2) fun _ => Assertion.IsLeafOf.lawful⟩
  | conditions hinner =>
      exact ⟨hseparated.conditions_lawful,
        hinner.lawful (fun _ hlens => hlens.2) fun _ => Assertion.IsLeafOf.lawful⟩

theorem inDomain_fixable_mem {a : Assertion α} (ha : a.InDomain .total own) :
    ∀ l ∈ a.leaves, l.Fixable → l ∈ Leaf.domain own := by
  cases ha with
  | own r =>
      intro l hl _
      exact .inl ⟨r, (List.mem_singleton.mp hl).symm⟩
  | metadata hinner =>
      intro l hl hfixable
      obtain ⟨m, hm, rfl⟩ := List.mem_map.mp hl
      have hmem := hinner.fixable_mem (fun _ hlens => hlens)
        (fun _ hatom m hm _ => hatom.mem_range m hm) m hm hfixable.of_through
      exact .inr (.inl ⟨m, hmem, rfl⟩)
  | conditions hinner =>
      intro l hl hfixable
      obtain ⟨m, hm, rfl⟩ := List.mem_map.mp hl
      have hmem := hinner.fixable_mem (fun _ hlens => hlens)
        (fun _ hatom m hm _ => hatom.mem_range m hm) m hm hfixable.of_through
      exact .inr (.inr ⟨m, hmem, rfl⟩)

theorem list_lawful (hseparated : Separated own) {list : Checklist α}
    (hlist : list.InDomain .total own) : list.Lawful := by
  refine list.lawful_iff.mpr fun a ha => ?_
  exact (hlist a ha).lawful (fun _ hlens => hlens.2) fun _ => hseparated.inDomain_lawful

theorem list_fixable_mem {list : Checklist α} (hlist : list.InDomain .total own) :
    ∀ l ∈ list.leaves, l.Fixable → l ∈ Leaf.domain own := by
  intro l hl hfixable
  obtain ⟨a, ha, hla⟩ := (list.mem_leaves_iff l).mp hl
  exact (hlist a ha).fixable_mem (fun _ hlens => hlens) (fun _ => inDomain_fixable_mem) l hla
    hfixable

theorem repairs (hseparated : Separated own) (hown : Leaf.Cooperative (Set.range own))
    {list : Checklist α} (hlist : list.InDomain .total own) : list.Repairs :=
  (hseparated.list_lawful hlist).repairs (hseparated.cooperative hown) (list_fixable_mem hlist)

end Separated

end

namespace Checklist

-- Whatever assertions of a domain are put together, and on whatever object: repairing it brings
-- about each requirement that none of the later ones contradicts.
theorem domain_repairs :
    (∀ list : Checklist Space, list.OnSpaces .total → list.Repairs) ∧
      ∀ list : Checklist UserSignup, list.OnUserSignups .total → list.Repairs :=
  ⟨fun _ => SpaceRequirement.separated.repairs SpaceRequirement.writes.cooperative,
    fun _ => UserSignupRequirement.separated.repairs UserSignupRequirement.writes.cooperative⟩

end Checklist

end

namespace Checklist

def staged (stage : String) : Assertion Space :=
  .onMetadata (.leaf (MetadataRequirement.labelled "stage" stage).leaf)

theorem staged_holds_iff (stage : String) (space : Space) :
    (staged stage).Holds space ↔ space.metadata.labels.get? "stage" = some stage := by
  have hleaf := MetadataRequirement.leaf_holds_iff (.labelled "stage" stage) space.metadata
  have hlift := Assertion.holds_lift_iff (Lens.metadata Space)
    (.leaf (MetadataRequirement.labelled "stage" stage).leaf) space
  refine hlift.trans ⟨fun hholds => ?_, fun hlabel => ⟨space.metadata, rfl, hleaf.mpr hlabel⟩⟩
  obtain ⟨part, hpart, hholds⟩ := hholds
  obtain rfl : space.metadata = part := Option.some.inj hpart
  exact hleaf.mp hholds

-- Both stages cannot be had at once, and the conditions have no say in them.
def restaged : Checklist Space :=
  .ofList [staged "old", staged "new", .onConditions (.leaf ConditionRequirement.ready.leaf)]

theorem domain_repairs_of_restaged :
    restaged.OnSpaces .total ∧
      ∀ space, (staged "new").Holds (restaged.repair space).object ∧
        ¬(staged "old").Holds (restaged.repair space).object := by
  have hlist : restaged.OnSpaces .total := by
    intro a ha
    simp only [restaged, ofList, toList, List.mem_cons, List.not_mem_nil, or_false] at ha
    obtain rfl | rfl | rfl := ha
    · exact .atom (.metadata (.atom ⟨_, rfl⟩))
    · exact .atom (.metadata (.atom ⟨_, rfl⟩))
    · exact .atom (.conditions (.atom ⟨_, rfl⟩))
  refine ⟨hlist, (domain_repairs.1 restaged hlist).last_wins [] _ [] _ _ rfl rfl ?_ ?_⟩
  · intro hboth
    obtain ⟨space, hold, hnew⟩ := hboth
    have hold := (staged_holds_iff "old" space).mp hold
    have hnew := (staged_holds_iff "new" space).mp hnew
    simp [hold] at hnew
  · intro c hc _
    obtain rfl := List.mem_singleton.mp hc
    refine ⟨{ metadata := { name := "", labels := LabelMap.empty.insert "stage" "new" }, tier := "",
              conditions := [{ type := "Ready", status := .true }] }, ?_, by decide⟩
    exact (staged_holds_iff "new" _).mpr rfl

end Checklist

end Eventually
