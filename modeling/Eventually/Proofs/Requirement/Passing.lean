import Eventually.Explanation
import Eventually.Proofs.Assertion.Passing
import Eventually.Proofs.Requirement.Domain
import Eventually.Proofs.Requirement.Parts
import Eventually.Proofs.Resource.Document
import Eventually.Resource.Fixture

namespace Eventually

theorem Leaf.restrained_range {leaf : ρ → Leaf α} {failures : α → ρ → List String}
    {fix : α → ρ → α} (hcheck : ∀ r obj, (leaf r).check obj = (failures obj r).map .failure)
    (hfixer : ∀ r, (leaf r).fixer = some fun obj => fix obj r)
    (hfix : ∀ r obj, failures obj r = [] → fix obj r = obj) (r : ρ) : (leaf r).Restrained := by
  intro obj hholds fixed hfixed
  rw [hfixer, Option.mem_some] at hfixed
  have hfailures : failures obj r = [] := by
    rw [Leaf.Holds, hcheck] at hholds
    exact (Report.forall_failure_iff _).mp hholds
  rw [← hfixed]
  exact hfix r obj hfailures

theorem Lens.Identity.onePart {lens : Lens α α} (hidentity : lens.Identity) : lens.OnePart where
  projects := hidentity.projects
  part_eq obj x hx part hpart := by
    rw [(hidentity.access_eq obj x hx).1, hidentity.get?_eq obj part hpart]

theorem Checklist.explain_of_repair_eq [Writable α] [OrderedDocuments α] {list : Checklist α}
    {obj : α} (hrepair : (list.repair obj).object = obj) {document : Json}
    (hwrite : Writable.write obj = .ok document) :
    ∃ e, list.explain obj = .ok e ∧ e.changes = [] := by
  have hordered := OrderedDocuments.ordered obj document hwrite
  refine ⟨⟨Diff.report document document, (list.repair obj).unexplained⟩, ?_, ?_⟩
  · simp only [explain, hrepair, hwrite]
  · exact (Diff.report_eq_nil_iff hordered hordered).mpr rfl

section

variable [Stamps]

theorem MetadataRequirement.leaf_restrained (r : MetadataRequirement) : r.leaf.Restrained := by
  refine Leaf.restrained_range (fun _ _ => rfl) (fun _ => rfl) (fun r m hfailures => ?_) r
  have hread := (failures_eq_nil_iff m r).mp hfailures
  cases r with
  | name n =>
      obtain rfl : m.name = n := Option.some.inj hread
      rfl
  | scope s =>
      have hscope : m.scope = some s := hread
      rw [fix, ← hscope]
  | labelled key value => rw [fix, LabelMap.insert_of_get? hread]
  | unlabelled key => rw [fix, LabelMap.erase_of_get? hread]
  | annotated key value => rw [fix, LabelMap.insert_of_get? hread]
  | finalizer f => rw [fix, if_pos ((find?_eq_some_iff f m.finalizers).mp hread)]

namespace ConditionRequirement

theorem establish_of_met {status : ConditionStatus} {reason : Option String} {c : Condition}
    (hstatus : c.status = status) (hreason : ∀ expected ∈ reason, c.reason = some expected) :
    establish status reason c = c := by
  cases reason with
  | none => rw [establish, ← hstatus, Option.none_or]
  | some expected => rw [establish, ← hstatus, Option.some_or, ← hreason expected rfl]

theorem upsert_of_met {type : String} {status : ConditionStatus} {reason : Option String}
    {conditions : Conditions}
    (hmet : (holds type status reason).Meets (Condition.find? conditions type)) :
    upsert type status reason conditions = conditions := by
  induction conditions with
  | nil =>
      obtain ⟨c, hfound, _⟩ := hmet
      cases hfound
  | cons c rest ih =>
      by_cases hc : c.type = type
      · obtain ⟨d, hfound, hstatus, hreason⟩ := hmet
        simp only [Condition.find?, List.find?_cons, hc, decide_true, Option.mem_some] at hfound
        rw [upsert, if_pos hc, hfound, establish_of_met hstatus hreason]
      · simp only [Condition.find?, List.find?_cons, hc, decide_false] at hmet
        rw [upsert, if_neg hc, ih hmet]

-- Only the first condition of a type is looked at, and all others are left as they are.
theorem leaf_restrained (r : ConditionRequirement) : r.leaf.Restrained := by
  refine Leaf.restrained_range (fun _ _ => rfl) (fun _ => rfl) (fun r conditions hfailures => ?_) r
  have hmeets := (failures_eq_nil_iff conditions r).mp hfailures
  cases r with
  | present type => exact if_pos hmeets
  | holds type status reason => exact upsert_of_met hmeets
  | absent type =>
      refine List.filter_eq_self.mpr fun c hc => ?_
      have hother := List.find?_eq_none.mp hmeets c hc
      simp only [decide_eq_true_eq] at hother ⊢
      exact hother

end ConditionRequirement

theorem SpaceRequirement.leaf_restrained (r : SpaceRequirement) : r.leaf.Restrained := by
  refine Leaf.restrained_range (fun _ _ => rfl) (fun _ => rfl) (fun r space hfailures => ?_) r
  have hread := (failures_eq_nil_iff space r).mp hfailures
  cases r with
  | tier t => rw [fix, ← Option.some.inj hread]
  | targetCluster c =>
      have hcluster : space.targetCluster = some c := hread
      rw [fix, ← hcluster]

theorem UserSignupRequirement.leaf_restrained (r : UserSignupRequirement) :
    r.leaf.Restrained := by
  refine Leaf.restrained_range (fun _ _ => rfl) (fun _ => rfl) (fun r signup hfailures => ?_) r
  have hread := (failures_eq_nil_iff signup r).mp hfailures
  cases r with
  | username u => rw [fix, ← Sum.inl.inj hread]
  | approved flag => rw [fix, ← Sum.inr.inj hread]

-- The requirements of the domain, each on objects of its own type, and closures, which only check,
-- on objects of any type.
inductive Leaf.OfDomain : (α : Type) → Leaf α → Prop
  | metadata (r : MetadataRequirement) : OfDomain Metadata r.leaf
  | conditions (r : ConditionRequirement) : OfDomain Conditions r.leaf
  | space (r : SpaceRequirement) : OfDomain Space r.leaf
  | userSignup (r : UserSignupRequirement) : OfDomain UserSignup r.leaf
  | closure {l : Leaf α} (hfixer : l.fixer = none) : OfDomain α l

theorem Leaf.OfDomain.restrained {l : Leaf α} (hl : l.OfDomain α) : l.Restrained := by
  cases hl with
  | metadata r => exact r.leaf_restrained
  | conditions r => exact r.leaf_restrained
  | space r => exact r.leaf_restrained
  | userSignup r => exact r.leaf_restrained
  | closure hfixer =>
      intro obj _ fix hfix
      rw [hfixer] at hfix
      cases hfix

theorem Lens.metadata_onePart [WithMetadata α] [KindName α] : (Lens.metadata α).OnePart where
  projects := WithMetadata.set_get
  part_eq := by
    rintro obj x ⟨⟩ part ⟨⟩
    rfl

theorem Lens.conditions_onePart [WithConditions α] [KindName α] :
    (Lens.conditions α).OnePart where
  projects := WithConditions.set_get
  part_eq := by
    rintro obj x ⟨⟩ part ⟨⟩
    rfl

theorem Lens.asSpace_onePart : Lens.asSpace.OnePart where
  projects resource := by cases resource <;> rfl
  part_eq := by
    intro obj x hx part hpart
    cases obj <;> cases hx
    exact Option.some.inj hpart

namespace Checklist

-- Every way of fixing an object by a checklist leaves it as it is, and explaining it reports no
-- changes if it can be written at all.
structure LeavesAlone (list : Checklist α) (obj : α) : Prop where
  repair_eq : (list.repair obj).object = obj
  fix_eq : list.fix obj = obj
  fixer_eq : ∀ fix ∈ (Assertion.all list).fixer?, fix obj = obj
  member_eq : ∀ a ∈ list.toList, (a.repair obj).object = obj ∧ ∀ fix ∈ a.fixer?, fix obj = obj
  flattened_eq : ∀ fixer ∈ list.fixers, ∀ fix ∈ fixer, fix obj = obj
  changes_eq : ∀ [Writable α] [OrderedDocuments α] (document : Json),
    Writable.write obj = .ok document → ∃ e, list.explain obj = .ok e ∧ e.changes = []

-- An object that passes needs no change.
theorem passing_left_alone (list : Checklist α)
    (hlist : (Assertion.all list).MadeOf Leaf.OfDomain) (obj : α) (hpasses : list.passes obj) :
    list.LeavesAlone obj := by
  have hrestrained : ∀ α (l : Leaf α), l.OfDomain α → l.Restrained := fun _ _ hl => hl.restrained
  have hholds : (Assertion.all list).Holds obj := (list.passes_iff obj).mp hpasses
  have hidle : (Assertion.all list).Idle obj := hlist.idle hrestrained hholds
  have hmembers : ∀ a ∈ list.toList, a.Idle obj := by
    intro a ha
    cases hlist with
    | all hmembers =>
        exact (hmembers a ha).idle hrestrained ((Assertion.holds_all_iff list obj).mp hholds a ha)
  constructor
  case repair_eq => exact hidle.repair_eq
  case fix_eq => exact applyFixers_of_fixed hidle.each_eq
  case fixer_eq => exact hidle.fixer_eq
  case member_eq => exact fun a ha => ⟨(hmembers a ha).repair_eq, (hmembers a ha).fixer_eq⟩
  case flattened_eq => exact hidle.each_eq
  case changes_eq => exact fun _ hwrite => explain_of_repair_eq hidle.repair_eq hwrite

end Checklist

end

namespace Checklist

-- A space with two conditions of one type, of which only the first is looked at, that has the
-- finalizer already. The last requirement may read the space but not replace it.
def settledSpace : Space where
  metadata := { name := "dev", labels := LabelMap.empty.insert "stage" "new",
                finalizers := ["keep", "other"] }
  tier := "gold"
  conditions := [.ready "Provisioned", .notReady "Stale"]

def settled : Checklist Space :=
  .ofList
    [.onMetadata (.all (.ofList
        [.leaf (MetadataRequirement.labelled "stage" "new").leaf,
          .leaf (MetadataRequirement.finalizer "keep").leaf])),
      .onConditions (.leaf ConditionRequirement.ready.leaf),
      .lift (.guarded "Space" (fun _ => true) (some fun _ => false))
        (.leaf (SpaceRequirement.tier "gold").leaf)]

theorem settled_madeOf : (Assertion.all settled).MadeOf Leaf.OfDomain := by
  refine .all fun a ha => ?_
  simp only [settled, ofList, toList, List.mem_cons, List.not_mem_nil, or_false] at ha
  obtain rfl | rfl | rfl := ha
  · refine .lift Lens.metadata_onePart (.all fun a ha => ?_)
    simp only [toList, List.mem_cons, List.not_mem_nil, or_false] at ha
    obtain rfl | rfl := ha <;> exact .leaf (.metadata _)
  · exact .lift Lens.conditions_onePart (.leaf (.conditions _))
  · exact .lift (Lens.guarded_identity _ _ _).onePart (.leaf (.space _))

theorem passing_left_alone_of_settled :
    settled.passes settledSpace ∧ settled.LeavesAlone settledSpace ∧
      LeavesAlone (.ofList [.onSpace (.all settled)]) (.space settledSpace) := by
  have hpasses : settled.passes settledSpace := by decide
  have hcast : (Assertion.all (.ofList [.onSpace (.all settled)])).MadeOf Leaf.OfDomain := by
    refine .all fun a ha => ?_
    obtain rfl := List.mem_singleton.mp ha
    exact .lift Lens.asSpace_onePart settled_madeOf
  exact ⟨hpasses, passing_left_alone settled settled_madeOf settledSpace hpasses,
    passing_left_alone _ hcast (.space settledSpace) (by decide)⟩

end Checklist

end Eventually
