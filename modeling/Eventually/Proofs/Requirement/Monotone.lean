import Eventually.Proofs.Requirement.Demand
import Eventually.Proofs.Requirement.Repair
import Mathlib.Data.Set.List

namespace Eventually

namespace Checklist

-- A list that consists of requirements, and is monotone exactly if they are of a certain kind.
structure MonotoneIf (leaf : ρ → Leaf α) (P : List ρ → Prop) (list : Checklist α) : Prop where
  exists_requirements : ∃ rs : List ρ, list.leaves = rs.map leaf
  monotone_iff : ∀ rs : List ρ, list.leaves = rs.map leaf → (list.Monotone ↔ P rs)

theorem Lawful.monotoneIf {list : Checklist α} (hlawful : list.Lawful) {leaf : ρ → Leaf α}
    (hleaves : ∀ l ∈ list.leaves, l ∈ Set.range leaf) {P : List ρ → Prop}
    (himprove : ∀ rs, Leaf.Improve leaf rs ↔ P rs) : list.MonotoneIf leaf P where
  exists_requirements := by
    obtain ⟨rs, hrs⟩ : list.leaves ∈ Set.range (List.map leaf) := by
      rw [Set.range_list_map]
      exact hleaves
    exact ⟨rs, hrs.symm⟩
  monotone_iff := fun rs hrs => (hlawful.monotone_iff hrs).trans (himprove rs)

end Checklist

section

variable [Stamps]

theorem Sited.monotoneIf {ρ ι V : Type} [DecidableEq ρ] [DecidableEq ι] [WithMetadata α]
    [WithConditions α] [KindName α] {own : ρ → Leaf α} {ownRead : α → ι → V} {ownPlace : ρ → ι}
    {ownWanted : ρ → V} (hsited : Sited own ownRead ownPlace ownWanted) (start : α)
    {list : Checklist α} (hlist : list.InDomain .total own) (heach : list.EachFixable) :
    list.MonotoneIf (Demand.leaf own) (Demand.Prevail ownPlace) := by
  refine (hsited.separated.list_lawful hlist).monotoneIf (fun l hl => ?_)
    (hsited.improve_iff start)
  rw [Demand.range_leaf]
  exact Separated.list_fixable_mem hlist l hl (heach.fixable l hl)

theorem MetadataRequirement.improve_iff (rs : List MetadataRequirement) :
    Leaf.Improve leaf rs ↔ ∀ p, Leaf.LastPrevails (rs.filter (place · = p)) := by
  refine (placed.improve_iff rs).trans (forall_congr' fun p => ?_)
  exact exclusive.improve_iff Leaf.place_of_mem_filter { name := "" }

theorem ConditionRequirement.improve_iff (rs : List ConditionRequirement) :
    Leaf.Improve leaf rs ↔ ∀ t, Prevail (rs.filter (type · = t)) := by
  refine (placed.improve_iff rs).trans (forall_congr' fun t => ?_)
  exact (watched Leaf.place_of_mem_filter).improve_iff

namespace Checklist

-- The domain of metadata and that of conditions.
abbrev OnMetadata (turns : Turns) (list : Checklist Metadata) : Prop :=
  ∀ a ∈ list.toList, a.Built turns (Assertion.IsLeafOf MetadataRequirement.leaf)

abbrev OnConditions (turns : Turns) (list : Checklist Conditions) : Prop :=
  ∀ a ∈ list.toList, a.Built turns (Assertion.IsLeafOf ConditionRequirement.leaf)

omit [Stamps] in
theorem monotoneIf_of_built {leaf : ρ → Leaf α} {P : List ρ → Prop}
    (himprove : ∀ rs, Leaf.Improve leaf rs ↔ P rs) {list : Checklist α}
    (hlist : ∀ a ∈ list.toList, a.Built .total (Assertion.IsLeafOf leaf))
    (heach : list.EachFixable) : list.MonotoneIf leaf P := by
  have hlawful : list.Lawful := by
    refine list.lawful_iff.mpr fun a ha => ?_
    exact (hlist a ha).lawful (fun _ hlens => hlens.2) fun _ => Assertion.IsLeafOf.lawful
  refine hlawful.monotoneIf (fun l hl => ?_) himprove
  obtain ⟨a, ha, hla⟩ := (list.mem_leaves_iff l).mp hl
  exact (hlist a ha).fixable_mem (fun _ hlens => hlens) (fun _ hatom m hm _ =>
    hatom.mem_range m hm) l hla (heach.fixable l hl)

-- In all domains a list whose members can all be fixed never fails more often for being repaired
-- exactly if, at each place, what is asked for last is asked for as often as anything else is. Of a
-- condition its being there, its status and its reason are asked for each by itself.
theorem domain_monotone_iff :
    (∀ list : Checklist Space, list.OnSpaces .total → list.EachFixable →
      list.MonotoneIf (Demand.leaf SpaceRequirement.leaf)
        (Demand.Prevail SpaceRequirement.place)) ∧
    (∀ list : Checklist UserSignup, list.OnUserSignups .total → list.EachFixable →
      list.MonotoneIf (Demand.leaf UserSignupRequirement.leaf)
        (Demand.Prevail UserSignupRequirement.place)) ∧
    (∀ list : Checklist Metadata, list.OnMetadata .total → list.EachFixable →
      list.MonotoneIf MetadataRequirement.leaf fun rs =>
        ∀ p, Leaf.LastPrevails (rs.filter (MetadataRequirement.place · = p))) ∧
    ∀ list : Checklist Conditions, list.OnConditions .total → list.EachFixable →
      list.MonotoneIf ConditionRequirement.leaf fun rs =>
        ∀ t, ConditionRequirement.Prevail (rs.filter (ConditionRequirement.type · = t)) :=
  ⟨fun _ => SpaceRequirement.sited.monotoneIf { metadata := { name := "" }, tier := "" },
    fun _ => UserSignupRequirement.sited.monotoneIf { metadata := { name := "" }, username := "" },
    fun _ => monotoneIf_of_built MetadataRequirement.improve_iff,
    fun _ => monotoneIf_of_built ConditionRequirement.improve_iff⟩

end Checklist

end

namespace Checklist

-- A checklist of plain requirements.
def ofRequirements (leaf : ρ → Leaf α) (rs : List ρ) : Checklist α :=
  ofList (rs.map fun r => .leaf (leaf r))

theorem ofRequirements_built (turns : Turns) (leaf : ρ → Leaf α) (rs : List ρ) :
    ∀ a ∈ (ofRequirements leaf rs).toList, a.Built turns (Assertion.IsLeafOf leaf) := by
  intro a ha
  rw [ofRequirements, toList_ofList] at ha
  obtain ⟨r, _, rfl⟩ := List.mem_map.mp ha
  exact .atom ⟨r, rfl⟩

theorem leaves_ofRequirements (leaf : ρ → Leaf α) (rs : List ρ) :
    (ofRequirements leaf rs).leaves = rs.map leaf := by
  induction rs with
  | nil => rfl
  | cons r rest ih => exact congrArg (leaf r :: ·) ih

-- In each domain a list whose members contradict each other.
theorem domain_monotone_iff_of_contested :
    (ofList [staged "old", staged "new"]).Monotone ∧
    (ofRequirements UserSignupRequirement.leaf [.approved true, .approved false]).Monotone ∧
    ¬(ofRequirements MetadataRequirement.leaf
      [.labelled "x" "1", .labelled "x" "1", .labelled "x" "2"]).Monotone ∧
    (ofRequirements ConditionRequirement.leaf
      [.holds "Ready" .true (some "A"), .holds "Ready" .false none,
        .holds "Ready" .false none]).Monotone := by
  refine ⟨?_, ?_, ?_, ?_⟩
  · have hlist : (ofList [staged "old", staged "new"]).OnSpaces .total :=
      List.forall_mem_cons.mpr ⟨.atom (.metadata (.atom ⟨_, rfl⟩)),
        List.forall_mem_singleton.mpr (.atom (.metadata (.atom ⟨_, rfl⟩)))⟩
    refine ((domain_monotone_iff.1 _ hlist (by decide)).monotone_iff
      [.metadata (.labelled "stage" "old"), .metadata (.labelled "stage" "new")] rfl).mpr ?_
    exact .of_nodup (by decide) (by decide) fun _ _ => Nat.le_refl 0
  · have hlist : (ofRequirements UserSignupRequirement.leaf
        [.approved true, .approved false]).OnUserSignups .total :=
      List.forall_mem_cons.mpr ⟨.atom (.own _), List.forall_mem_singleton.mpr (.atom (.own _))⟩
    refine ((domain_monotone_iff.2.1 _ hlist (by decide)).monotone_iff
      [.own (.approved true), .own (.approved false)] rfl).mpr ?_
    exact .of_nodup (by decide) (by decide) fun _ _ => Nat.le_refl 0
  · rw [(domain_monotone_iff.2.2.1 _ (ofRequirements_built _ _ _) (by decide)).monotone_iff _
      (leaves_ofRequirements _ _)]
    exact fun hprevails => absurd (hprevails (.labelled "x")) (by decide)
  · rw [(domain_monotone_iff.2.2.2 _ (ofRequirements_built _ _ _) (by decide)).monotone_iff _
      (leaves_ofRequirements _ _)]
    intro t
    by_cases ht : t = "Ready"
    · subst ht
      rintro (_ | ⟨type, status, reason, message, changed⟩)
      · decide
      · cases status <;> by_cases hreason : reason = some "A" <;>
          simp [ConditionRequirement.voteTotal, ConditionRequirement.votes,
            ConditionRequirement.settle, ConditionRequirement.revise,
            ConditionRequirement.establish, ConditionRequirement.type, hreason]
    · have hnone : [ConditionRequirement.holds "Ready" .true (some "A"), .holds "Ready" .false none,
          .holds "Ready" .false none].filter (ConditionRequirement.type · = t) = [] := by
        simp [ConditionRequirement.type, Ne.symm ht]
      rw [hnone]
      exact fun _ => Nat.le_refl 0

-- A requirement that was met twice and then loses to another, and a condition that is missed three
-- times and then wrong for two of three in both its status and its reason.
theorem repair_adds_failures :
    let labels := ofRequirements MetadataRequirement.leaf
      [.labelled "x" "1", .labelled "x" "1", .labelled "x" "2"]
    let labelled : Metadata := { name := "a", labels := LabelMap.empty.insert "x" "1" }
    let statuses := ofRequirements ConditionRequirement.leaf
      [.holds "Ready" .true (some "A"), .holds "Ready" .false (some "B"),
        .holds "Ready" .unknown (some "C")]
    labels.OnMetadata .total ∧ labels.EachFixable ∧ (labels.failures labelled).length = 1 ∧
      (labels.failures (labels.repair labelled).object).length = 2 ∧
      statuses.OnConditions .total ∧ statuses.EachFixable ∧
      (statuses.failures []).length = 3 ∧
      (statuses.failures (statuses.repair []).object).length = 4 :=
  ⟨ofRequirements_built _ _ _, by decide, by decide, by decide, ofRequirements_built _ _ _,
    by decide, by decide, by decide⟩

end Checklist

end Eventually
