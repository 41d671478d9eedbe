import Eventually.Proofs.Requirement.Repair

namespace Eventually

-- What a repair keeps is what the fixers of the leaves keep.
theorem Checklist.Lawful.repair_keeps {list : Checklist α} (hlawful : list.Lawful) {P : α → Prop}
    {obj : α} (hobj : P obj)
    (hfix : ∀ l ∈ list.leaves, ∀ fix ∈ l.fixer, ∀ copy, P copy → P (fix copy)) :
    P (list.repair obj).object := by
  rw [hlawful.repair_object obj]
  generalize list.leaves = leaves at hfix
  induction leaves generalizing obj with
  | nil => exact hobj
  | cons l rest ih =>
      obtain ⟨hl, hrest⟩ := List.forall_mem_cons.mp hfix
      simp only [applyFixers, List.map_cons, List.foldl_cons] at ih ⊢
      refine ih ?_ hrest
      cases hfixer : l.fixer with
      | none => exact hobj
      | some fix => exact hl fix hfixer obj hobj

section

variable [Stamps]

-- What differs between two metadata is what requirements ask for, and has become what one of them
-- wants. Finalizers are only put behind those that are there, each of them once.
structure Metadata.Confined (asked : Set MetadataRequirement) (before after : Metadata) : Prop where
  uid_eq : after.uid = before.uid
  generation_eq : after.generation = before.generation
  created_eq : after.created = before.created
  read_eq : ∀ place, after.read place = before.read place ∨
    ∃ r ∈ asked, r.place = place ∧ after.read place = r.wanted
  finalizers_eq : ∃ added, after.finalizers = before.finalizers ++ added ∧ added.Nodup ∧
    ∀ f ∈ added, f ∉ before.finalizers ∧ .finalizer f ∈ asked

-- Conditions of types that no requirement names stay as they are and in their order, whatever is
-- put in or taken out around them.
structure Conditions.Confined (asked : Set ConditionRequirement) (before after : Conditions) :
    Prop where
  others_eq : ∀ other : String → Bool, (∀ r ∈ asked, other r.type = false) →
    after.filter (fun c => other c.type) = before.filter fun c => other c.type
  type_known : ∀ c ∈ after, (∃ d ∈ before, d.type = c.type) ∨ ∃ r ∈ asked, r.type = c.type

namespace Metadata.Confined

variable {asked : Set MetadataRequirement}

theorem refl (asked : Set MetadataRequirement) (m : Metadata) : m.Confined asked m where
  uid_eq := rfl
  generation_eq := rfl
  created_eq := rfl
  read_eq _ := .inl rfl
  finalizers_eq := ⟨[], (List.append_nil _).symm, List.nodup_nil, List.forall_mem_nil _⟩

theorem trans {first second third : Metadata} (hleft : first.Confined asked second)
    (hright : second.Confined asked third) : first.Confined asked third where
  uid_eq := hright.uid_eq.trans hleft.uid_eq
  generation_eq := hright.generation_eq.trans hleft.generation_eq
  created_eq := hright.created_eq.trans hleft.created_eq
  read_eq place := by
    rcases hright.read_eq place with hsame | hasked
    · rw [hsame]
      exact hleft.read_eq place
    · exact .inr hasked
  finalizers_eq := by
    obtain ⟨early, hsecond, hearly, hearlier⟩ := hleft.finalizers_eq
    obtain ⟨late, hthird, hlate, hlater⟩ := hright.finalizers_eq
    have hapart : ∀ f ∈ early, ∀ g ∈ late, f ≠ g := by
      rintro f hf _ hg rfl
      have hnew := (hlater f hg).1
      rw [hsecond] at hnew
      exact hnew (List.mem_append_right _ hf)
    refine ⟨early ++ late, ?_, List.nodup_append.mpr ⟨hearly, hlate, hapart⟩, fun f hf => ?_⟩
    · rw [hthird, hsecond, List.append_assoc]
    · rcases List.mem_append.mp hf with hf | hf
      · exact hearlier f hf
      · obtain ⟨hnew, hasked⟩ := hlater f hf
        rw [hsecond] at hnew
        exact ⟨fun hold => hnew (List.mem_append_left _ hold), hasked⟩

end Metadata.Confined

theorem MetadataRequirement.fix_confined {asked : Set MetadataRequirement}
    {r : MetadataRequirement} (hr : r ∈ asked) (m : Metadata) : m.Confined asked (r.fix m) := by
  have hread : ∀ place, (r.fix m).read place = m.read place ∨
      ∃ s ∈ asked, s.place = place ∧ (r.fix m).read place = s.wanted := by
    intro place
    rw [read_fix]
    by_cases hplace : r.place = place
    · rw [if_pos hplace]
      exact .inr ⟨r, hr, hplace, rfl⟩
    · rw [if_neg hplace]
      exact .inl rfl
  have hnone : ∃ added, m.finalizers = m.finalizers ++ added ∧ added.Nodup ∧
      ∀ f ∈ added, f ∉ m.finalizers ∧ .finalizer f ∈ asked :=
    (Metadata.Confined.refl asked m).finalizers_eq
  cases r with
  | finalizer f =>
      by_cases hf : f ∈ m.finalizers
      · rw [fix, if_pos hf]
        exact .refl asked m
      · rw [fix, if_neg hf] at hread ⊢
        have hone : ∀ g ∈ [f], g ∉ m.finalizers ∧ .finalizer g ∈ asked :=
          List.forall_mem_singleton.mpr ⟨hf, hr⟩
        exact ⟨rfl, rfl, rfl, hread, [f], rfl, by simp, hone⟩
  | _ => exact ⟨rfl, rfl, rfl, hread, hnone⟩

namespace Conditions.Confined

variable {asked : Set ConditionRequirement}

theorem refl (asked : Set ConditionRequirement) (conditions : Conditions) :
    Conditions.Confined asked conditions conditions where
  others_eq _ _ := rfl
  type_known c hc := .inl ⟨c, hc, rfl⟩

theorem trans {first second third : Conditions} (hleft : Conditions.Confined asked first second)
    (hright : Conditions.Confined asked second third) : Conditions.Confined asked first third where
  others_eq other hother := (hright.others_eq other hother).trans (hleft.others_eq other hother)
  type_known c hc := by
    rcases hright.type_known c hc with ⟨d, hd, htype⟩ | hasked
    · rw [← htype]
      exact hleft.type_known d hd
    · exact .inr hasked

end Conditions.Confined

namespace ConditionRequirement

theorem filter_upsert (type : String) (status : ConditionStatus) (reason : Option String)
    (conditions : Conditions) {other : String → Bool} (hother : other type = false) :
    (upsert type status reason conditions).filter (fun c => other c.type) =
      conditions.filter fun c => other c.type := by
  induction conditions with
  | nil => simp [upsert, establish, hother]
  | cons c rest ih =>
      rw [upsert]
      by_cases hc : c.type = type
      · simp [hc, establish, hother]
      · rw [if_neg hc, List.filter_cons, List.filter_cons, ih]

theorem type_of_mem_upsert {type : String} {status : ConditionStatus} {reason : Option String}
    {conditions : Conditions} {c : Condition} (hc : c ∈ upsert type status reason conditions) :
    (∃ d ∈ conditions, d.type = c.type) ∨ type = c.type := by
  induction conditions with
  | nil =>
      obtain rfl := List.mem_singleton.mp hc
      exact .inr rfl
  | cons head rest ih =>
      rw [upsert] at hc
      split at hc
      · rcases List.mem_cons.mp hc with rfl | hc
        · exact .inl ⟨head, List.mem_cons_self, rfl⟩
        · exact .inl ⟨c, List.mem_cons_of_mem _ hc, rfl⟩
      · rcases List.mem_cons.mp hc with rfl | hc
        · exact .inl ⟨c, List.mem_cons_self, rfl⟩
        · refine (ih hc).imp_left fun hknown => ?_
          obtain ⟨d, hd, htype⟩ := hknown
          exact ⟨d, List.mem_cons_of_mem _ hd, htype⟩

theorem filter_fix (r : ConditionRequirement) (conditions : Conditions) {other : String → Bool}
    (hother : other r.type = false) :
    (r.fix conditions).filter (fun c => other c.type) =
      conditions.filter fun c => other c.type := by
  cases r with
  | present type =>
      have hlast : other type = false := hother
      rw [fix]
      split
      · rfl
      · simp [List.filter_append, hlast]
  | holds type status reason => exact filter_upsert type status reason conditions hother
  | absent type =>
      have hgone : other type = false := hother
      rw [fix, List.filter_filter]
      refine List.filter_congr fun c _ => ?_
      by_cases hc : c.type = type
      · simp [hc, hgone]
      · simp [hc]

theorem type_of_mem_fix (r : ConditionRequirement) (conditions : Conditions) {c : Condition}
    (hc : c ∈ r.fix conditions) : (∃ d ∈ conditions, d.type = c.type) ∨ r.type = c.type := by
  cases r with
  | present type =>
      rw [fix] at hc
      split at hc
      · exact .inl ⟨c, hc, rfl⟩
      · rcases List.mem_append.mp hc with hc | hc
        · exact .inl ⟨c, hc, rfl⟩
        · rw [List.mem_singleton.mp hc]
          exact .inr rfl
  | holds type status reason => exact type_of_mem_upsert hc
  | absent type => exact .inl ⟨c, (List.mem_filter.mp hc).1, rfl⟩

theorem fix_confined {asked : Set ConditionRequirement} {r : ConditionRequirement} (hr : r ∈ asked)
    (conditions : Conditions) : Conditions.Confined asked conditions (r.fix conditions) where
  others_eq _ hother := r.filter_fix conditions (hother r hr)
  type_known _ hc := (r.type_of_mem_fix conditions hc).imp_right fun htype => ⟨r, hr, htype⟩

end ConditionRequirement

section

variable {α : Type} [WithMetadata α] [WithConditions α] [KindName α] {own : ρ → Leaf α}

namespace Checklist

-- The requirements that are among the leaves of a list, at whatever depth.
def metadataAsked (list : Checklist α) : Set MetadataRequirement :=
  { r | r.leaf.through (Lens.metadata α) ∈ list.leaves }

def conditionsAsked (list : Checklist α) : Set ConditionRequirement :=
  { r | r.leaf.through (Lens.conditions α) ∈ list.leaves }

def contentAsked (own : ρ → Leaf α) (list : Checklist α) : Set ρ := { r | own r ∈ list.leaves }

-- An object differs from another one only in what a list asks for. What that is for its own content
-- is a parameter.
structure Confined (own : ρ → Leaf α) (content : Set ρ → α → α → Prop) (list : Checklist α)
    (before after : α) : Prop where
  metadata : (WithMetadata.metadata before).Confined list.metadataAsked
    (WithMetadata.metadata after)
  conditions : Conditions.Confined list.conditionsAsked (WithConditions.conditions before)
    (WithConditions.conditions after)
  content : content (list.contentAsked own) before after

end Checklist

-- Nothing that a fixer of a domain does goes beyond what is asked for the content of objects.
structure ContentKept (own : ρ → Leaf α) (content : Set ρ → α → α → Prop) : Prop where
  refl : ∀ asked a, content asked a a
  setMetadata : ∀ {asked a b}, content asked a b → ∀ m,
    content asked a (WithMetadata.setMetadata b m)
  setConditions : ∀ {asked a b}, content asked a b → ∀ c,
    content asked a (WithConditions.setConditions b c)
  fix : ∀ {asked a b}, content asked a b → ∀ r ∈ asked, ∀ fix ∈ (own r).fixer,
    content asked a (fix b)

theorem Separated.repair_confined (hseparated : Separated own) {content : Set ρ → α → α → Prop}
    (hcontent : ContentKept own content) {list : Checklist α} (hlist : list.InDomain .total own)
    (obj : α) : list.Confined own content obj (list.repair obj).object := by
  refine (hseparated.list_lawful hlist).repair_keeps ?_ fun l hl fix hfix copy hcopy => ?_
  · exact ⟨.refl _ _, .refl _ _, hcontent.refl _ _⟩
  · have hfixable : l.Fixable := Option.isSome_of_mem hfix
    rcases list_fixable_mem hlist l hl hfixable with ⟨r, rfl⟩ | ⟨_, ⟨r, rfl⟩, rfl⟩ |
      ⟨_, ⟨r, rfl⟩, rfl⟩
    · have hmetadata := hseparated.metadata_fix r fix hfix copy
      have hconditions := hseparated.conditions_fix r fix hfix copy
      constructor
      · rw [hmetadata]
        exact hcopy.metadata
      · rw [hconditions]
        exact hcopy.conditions
      · exact hcontent.fix hcopy.content r hl fix hfix
    · obtain rfl := Option.some.inj hfix
      have hr : r ∈ list.metadataAsked := hl
      have hstep := MetadataRequirement.fix_confined hr (WithMetadata.metadata copy)
      constructor
      · have hafter := hseparated.metadata_setMetadata copy (r.fix (WithMetadata.metadata copy))
        exact hafter ▸ hcopy.metadata.trans hstep
      · have hafter := hseparated.conditions_setMetadata copy (r.fix (WithMetadata.metadata copy))
        exact hafter ▸ hcopy.conditions
      · exact hcontent.setMetadata hcopy.content _
    · obtain rfl := Option.some.inj hfix
      have hr : r ∈ list.conditionsAsked := hl
      have hstep := ConditionRequirement.fix_confined hr (WithConditions.conditions copy)
      constructor
      · have hafter :=
          hseparated.metadata_setConditions copy (r.fix (WithConditions.conditions copy))
        exact hafter ▸ hcopy.metadata
      · have hafter :=
          hseparated.conditions_setConditions copy (r.fix (WithConditions.conditions copy))
        exact hafter ▸ hcopy.conditions.trans hstep
      · exact hcontent.setConditions hcopy.content _

end

-- What has been provisioned is not up to those who ask.
structure Space.ContentConfined (asked : Set SpaceRequirement) (before after : Space) : Prop where
  landedCluster_eq : after.landedCluster = before.landedCluster
  provisioned_eq : after.provisioned = before.provisioned
  tier_eq : after.tier = before.tier ∨ .tier after.tier ∈ asked
  targetCluster_eq : after.targetCluster = before.targetCluster ∨
    ∃ cluster, after.targetCluster = some cluster ∧ .targetCluster cluster ∈ asked

structure UserSignup.ContentConfined (asked : Set UserSignupRequirement)
    (before after : UserSignup) : Prop where
  compliantUsername_eq : after.compliantUsername = before.compliantUsername
  username_eq : after.username = before.username ∨ .username after.username ∈ asked
  approved_eq : after.approved = before.approved ∨ .approved after.approved ∈ asked

theorem SpaceRequirement.contentKept : ContentKept leaf Space.ContentConfined where
  refl _ _ := ⟨rfl, rfl, .inl rfl, .inl rfl⟩
  setMetadata hcontent _ := { hcontent with }
  setConditions hcontent _ := { hcontent with }
  fix hcontent r hr fix hfix := by
    obtain rfl := Option.some.inj hfix
    cases r with
    | tier t => exact { hcontent with tier_eq := .inr hr }
    | targetCluster c => exact { hcontent with targetCluster_eq := .inr ⟨c, rfl, hr⟩ }

theorem UserSignupRequirement.contentKept : ContentKept leaf UserSignup.ContentConfined where
  refl _ _ := ⟨rfl, .inl rfl, .inl rfl⟩
  setMetadata hcontent _ := { hcontent with }
  setConditions hcontent _ := { hcontent with }
  fix hcontent r hr fix hfix := by
    obtain rfl := Option.some.inj hfix
    cases r with
    | username u => exact { hcontent with username_eq := .inr hr }
    | approved flag => exact { hcontent with approved_eq := .inr hr }

namespace Checklist

-- Whatever assertions of a domain are put together, and on whatever object: repairing it changes
-- what a leaf asks for, and nothing beside it.
theorem domain_repairs_confined :
    (∀ list : Checklist Space, list.OnSpaces .total → ∀ space,
      list.Confined SpaceRequirement.leaf Space.ContentConfined space
        (list.repair space).object) ∧
    ∀ list : Checklist UserSignup, list.OnUserSignups .total → ∀ signup,
      list.Confined UserSignupRequirement.leaf UserSignup.ContentConfined signup
        (list.repair signup).object :=
  ⟨fun _ hlist => SpaceRequirement.separated.repair_confined SpaceRequirement.contentKept hlist,
    fun _ hlist =>
      UserSignupRequirement.separated.repair_confined UserSignupRequirement.contentKept hlist⟩

end Checklist

end

namespace Checklist

-- A finalizer that is asked for twice beside one that is there, a condition that comes up twice and
-- is to go, and one that is to come.
def retired : Checklist Space :=
  .ofList [.onMetadata (.all (.ofList [.leaf (MetadataRequirement.finalizer "drain").leaf,
      .leaf (MetadataRequirement.finalizer "audit").leaf,
      .leaf (MetadataRequirement.finalizer "drain").leaf])),
    .all (.ofList [.onConditions (.leaf (ConditionRequirement.absent "Ready").leaf),
      .onConditions (.leaf (ConditionRequirement.present "Retired").leaf)])]

def active : Space where
  metadata := { name := "john", finalizers := ["audit"], generation := 4 }
  tier := "base"
  provisioned := ["john-dev"]
  conditions := [⟨"Ready", .true, none, none, none⟩, ⟨"Valid", .false, none, none, none⟩,
    ⟨"Ready", .unknown, none, none, none⟩]

theorem domain_repairs_confined_of_retired :
    retired.OnSpaces .total ∧
      retired.Confined SpaceRequirement.leaf Space.ContentConfined active
        (retired.repair active).object ∧
      (retired.repair active).object.metadata.finalizers = ["audit", "drain"] ∧
      (retired.repair active).object.conditions.map Condition.type = ["Valid", "Retired"] := by
  have hmetadata : (Assertion.all (.ofList [.leaf (MetadataRequirement.finalizer "drain").leaf,
      .leaf (MetadataRequirement.finalizer "audit").leaf,
      .leaf (MetadataRequirement.finalizer "drain").leaf])).Built .total
        (Assertion.IsLeafOf MetadataRequirement.leaf) := by
    refine .all fun a ha => ?_
    simp only [ofList, toList, List.mem_cons, List.not_mem_nil, or_false] at ha
    obtain rfl | rfl | rfl := ha <;> exact .atom ⟨_, rfl⟩
  have hlist : retired.OnSpaces .total := by
    intro a ha
    simp only [retired, ofList, toList, List.mem_cons, List.not_mem_nil, or_false] at ha
    obtain rfl | rfl := ha
    · exact .atom (.metadata hmetadata)
    · refine .all fun a ha => ?_
      simp only [toList, List.mem_cons, List.not_mem_nil, or_false] at ha
      obtain rfl | rfl := ha <;> exact .atom (.conditions (.atom ⟨_, rfl⟩))
  exact ⟨hlist, domain_repairs_confined.1 retired hlist active, by decide, by decide⟩

end Checklist

end Eventually
