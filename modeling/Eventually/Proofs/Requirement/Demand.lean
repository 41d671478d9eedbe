import Eventually.Proofs.Requirement.Placed
import Eventually.Proofs.Requirement.Votes

namespace Eventually

-- A requirement on a whole object: one of its own kind, or one on its metadata or its conditions.
inductive Demand (ρ : Type) where
  | own (r : ρ)
  | metadata (r : MetadataRequirement)
  | condition (r : ConditionRequirement)

namespace Demand

def own? : Demand ρ → Option ρ
  | own r => some r
  | _ => none

def metadata? : Demand ρ → Option MetadataRequirement
  | metadata r => some r
  | _ => none

def condition? : Demand ρ → Option ConditionRequirement
  | condition r => some r
  | _ => none

inductive Place (ι : Type) where
  | own (p : ι)
  | metadata (p : Metadata.Place)
  | condition (type : String)
deriving DecidableEq

def place (ownPlace : ρ → ι) : Demand ρ → Place ι
  | own r => .own (ownPlace r)
  | metadata r => .metadata r.place
  | condition r => .condition r.type

@[simp] theorem place_own (ownPlace : ρ → ι) (r : ρ) :
    (own r).place ownPlace = .own (ownPlace r) := rfl

@[simp] theorem place_metadata (ownPlace : ρ → ι) (r : MetadataRequirement) :
    (metadata r).place ownPlace = .metadata r.place := rfl

@[simp] theorem place_condition (ownPlace : ρ → ι) (r : ConditionRequirement) :
    (condition r).place ownPlace = .condition r.type := rfl

section

variable [DecidableEq ι] (ownPlace : ρ → ι) (ds : List (Demand ρ))

theorem filter_own (p : ι) : ds.filter (place ownPlace · = .own p) =
    ((ds.filterMap own?).filter (ownPlace · = p)).map own := by
  induction ds with
  | nil => rfl
  | cons d rest ih =>
      cases d with
      | own r => by_cases hr : ownPlace r = p <;> simp [own?, hr, ih]
      | _ => simp [List.filterMap_cons, own?, ih]

theorem filter_metadata (p : Metadata.Place) : ds.filter (place ownPlace · = .metadata p) =
    ((ds.filterMap metadata?).filter (MetadataRequirement.place · = p)).map metadata := by
  induction ds with
  | nil => rfl
  | cons d rest ih =>
      cases d with
      | metadata r => by_cases hr : r.place = p <;> simp [metadata?, hr, ih]
      | _ => simp [List.filterMap_cons, metadata?, ih]

theorem filter_condition (type : String) : ds.filter (place ownPlace · = .condition type) =
    ((ds.filterMap condition?).filter (ConditionRequirement.type · = type)).map condition := by
  induction ds with
  | nil => rfl
  | cons d rest ih =>
      cases d with
      | condition r => by_cases hr : r.type = type <;> simp [condition?, hr, ih]
      | _ => simp [List.filterMap_cons, condition?, ih]

end

end Demand

variable [Stamps]

namespace ConditionRequirement

variable {type : String} {rs : List ConditionRequirement}

-- Some conditions with a given one, or with none, as the one of a type that counts.
theorem exists_found (type : String) (found : Option Condition) :
    ∃ conditions, ∀ r : ConditionRequirement,
      r.Alike (Condition.find? conditions type) found := by
  cases found with
  | none =>
      refine ⟨[], fun r => ?_⟩
      rcases r with _ | ⟨_, _, _ | _⟩ | _ <;> simp [Condition.find?, Alike]
  | some c =>
      refine ⟨[{ c with type }], fun r => ?_⟩
      rcases r with _ | ⟨_, _, _ | _⟩ | _ <;> simp [Condition.find?, Alike]

theorem watched (htype : ∀ r ∈ rs, r.type = type) :
    Watched leaf (fun conditions => Condition.find? conditions type) rs where
  failureCount_eq := by
    intro r hr conditions
    rw [leaf_failureCount, htype r hr]
  revises := by
    intro r hr
    refine ⟨_, rfl, fun conditions => ?_⟩
    rw [find?_fix, if_pos (htype r hr), htype r hr]
  exists_alike := exists_found type

end ConditionRequirement

namespace Demand

-- Nothing is asked for more often than what the requirements on a place leave behind there.
structure Prevail [DecidableEq ρ] [DecidableEq ι] (ownPlace : ρ → ι) (ds : List (Demand ρ)) :
    Prop where
  own : ∀ p, Leaf.LastPrevails ((ds.filterMap own?).filter (ownPlace · = p))
  metadata : ∀ p,
    Leaf.LastPrevails ((ds.filterMap metadata?).filter (MetadataRequirement.place · = p))
  condition : ∀ type, ConditionRequirement.Prevail
    ((ds.filterMap condition?).filter (ConditionRequirement.type · = type))

-- Where nothing is asked for twice, no more than the conditions are left to look at.
theorem Prevail.of_nodup [DecidableEq ρ] [DecidableEq ι] {ownPlace : ρ → ι} {ds : List (Demand ρ)}
    (hown : (ds.filterMap own?).Nodup) (hmetadata : (ds.filterMap metadata?).Nodup)
    (hcondition : ∀ type, ConditionRequirement.Prevail
      ((ds.filterMap condition?).filter (ConditionRequirement.type · = type))) :
    Prevail ownPlace ds where
  own _ := Leaf.lastPrevails_of_nodup (hown.filter _)
  metadata _ := Leaf.lastPrevails_of_nodup (hmetadata.filter _)
  condition := hcondition

variable [WithMetadata α] [WithConditions α] [KindName α]

def leaf (ownLeaf : ρ → Leaf α) : Demand ρ → Leaf α
  | own r => ownLeaf r
  | metadata r => r.leaf.through (Lens.metadata α)
  | condition r => r.leaf.through (Lens.conditions α)

theorem range_leaf (ownLeaf : ρ → Leaf α) : Set.range (leaf ownLeaf) = Leaf.domain ownLeaf := by
  ext l
  constructor
  · rintro ⟨r | r | r, rfl⟩
    · exact .inl ⟨r, rfl⟩
    · exact .inr (.inl ⟨_, ⟨r, rfl⟩, rfl⟩)
    · exact .inr (.inr ⟨_, ⟨r, rfl⟩, rfl⟩)
  · rintro (⟨r, rfl⟩ | ⟨_, ⟨r, rfl⟩, rfl⟩ | ⟨_, ⟨r, rfl⟩, rfl⟩)
    · exact ⟨own r, rfl⟩
    · exact ⟨metadata r, rfl⟩
    · exact ⟨condition r, rfl⟩

-- Agreement at the places of an object, of which `ownRead` tells what is at those of its own kind.
def AgreeAt (ownRead : α → ι → V) : Place ι → α → α → Prop
  | .own p, a, b => ownRead a p = ownRead b p
  | .metadata p, a, b => (WithMetadata.metadata a).read p = (WithMetadata.metadata b).read p
  | .condition type, a, b =>
      Condition.find? (WithConditions.conditions a) type =
        Condition.find? (WithConditions.conditions b) type

end Demand

-- Requirements of a kind of its own that have places of their own, apart from metadata and
-- conditions.
structure Sited {ρ ι α V : Type} [DecidableEq ι] [WithMetadata α] [WithConditions α]
    (own : ρ → Leaf α) (ownRead : α → ι → V) (ownPlace : ρ → ι) (ownWanted : ρ → V) : Prop where
  separated : Separated own
  writes : Leaf.Writes own ownRead ownPlace ownWanted
  exclusive : Leaf.Exclusive own ownPlace
  check_eq : ∀ r a b, ownRead a (ownPlace r) = ownRead b (ownPlace r) →
    (own r).check a = (own r).check b
  read_setMetadata : ∀ a m, ownRead (WithMetadata.setMetadata a m) = ownRead a
  read_setConditions : ∀ a c, ownRead (WithConditions.setConditions a c) = ownRead a
  exists_blend : ∀ p a b, ∃ c, ownRead c p = ownRead a p ∧ ∀ q, q ≠ p → ownRead c q = ownRead b q

namespace Sited

variable {ρ ι α V : Type} [DecidableEq ι] [WithMetadata α] [WithConditions α] {own : ρ → Leaf α}
  {ownRead : α → ι → V} {ownPlace : ρ → ι} {ownWanted : ρ → V}

theorem exists_demand_blend (hsited : Sited own ownRead ownPlace ownWanted) (p : Demand.Place ι)
    (a b : α) : ∃ c, Demand.AgreeAt ownRead p c a ∧ ∀ q, q ≠ p → Demand.AgreeAt ownRead q c b := by
  have hseparated := hsited.separated
  cases p with
  | own p =>
      obtain ⟨c, hhere, hother⟩ := hsited.exists_blend p a b
      let whole := WithConditions.setConditions
        (WithMetadata.setMetadata c (WithMetadata.metadata b)) (WithConditions.conditions b)
      have hown : ownRead whole = ownRead c := by
        rw [hsited.read_setConditions, hsited.read_setMetadata]
      refine ⟨whole, (congrFun hown p).trans hhere, fun q hq => ?_⟩
      cases q with
      | own q => exact (congrFun hown q).trans (hother q fun h => hq (h ▸ rfl))
      | metadata q =>
          simp only [Demand.AgreeAt, whole, hseparated.metadata_setConditions,
            hseparated.metadata_setMetadata]
      | condition type =>
          simp only [Demand.AgreeAt, whole, hseparated.conditions_setConditions]
  | metadata p =>
      obtain ⟨m, hhere, hother⟩ :=
        Metadata.exists_blend p (WithMetadata.metadata a) (WithMetadata.metadata b)
      refine ⟨WithMetadata.setMetadata b m, ?_, fun q hq => ?_⟩
      · simpa only [Demand.AgreeAt, hseparated.metadata_setMetadata] using hhere
      · cases q with
        | own q => exact congrFun (hsited.read_setMetadata b m) q
        | metadata q =>
            simpa only [Demand.AgreeAt, hseparated.metadata_setMetadata] using
              hother q fun h => hq (h ▸ rfl)
        | condition type => simp only [Demand.AgreeAt, hseparated.conditions_setMetadata]
  | condition type =>
      obtain ⟨cs, hhere, hother⟩ := ConditionRequirement.exists_blend type
        (WithConditions.conditions a) (WithConditions.conditions b)
      refine ⟨WithConditions.setConditions b cs, ?_, fun q hq => ?_⟩
      · simpa only [Demand.AgreeAt, hseparated.conditions_setConditions] using hhere
      · cases q with
        | own q => exact congrFun (hsited.read_setConditions b cs) q
        | metadata q => simp only [Demand.AgreeAt, hseparated.metadata_setConditions]
        | condition other =>
            simpa only [Demand.AgreeAt, hseparated.conditions_setConditions] using
              hother other fun h => hq (h ▸ rfl)

variable [KindName α]

theorem placed (hsited : Sited own ownRead ownPlace ownWanted) :
    Leaf.Placed (Demand.leaf own) (Demand.place ownPlace) (Demand.AgreeAt ownRead) where
  equivalence p := by cases p <;> exact ⟨fun _ => rfl, Eq.symm, Eq.trans⟩
  check_eq d a b hagree := by
    cases d with
    | own r => exact hsited.check_eq r a b hagree
    | metadata r => exact r.check_eq_of_read _ _ hagree
    | condition r => exact r.check_eq_of_find? _ _ hagree
  agree_fix d fix hfix a b hagree := by
    have hseparated := hsited.separated
    cases d with
    | own r =>
        have hread := hsited.writes.read_fix hfix
        simp only [Demand.AgreeAt, Demand.place, hread, if_true]
    | metadata r =>
        obtain rfl := Option.some.inj hfix
        simp only [Demand.AgreeAt, Demand.place, Access.change, hseparated.metadata_setMetadata,
          r.read_fix, if_true]
    | condition r =>
        obtain rfl := Option.some.inj hfix
        have hfixed := ConditionRequirement.placed.agree_fix r _ rfl _ _ hagree
        simpa only [Demand.AgreeAt, Demand.place, Access.change,
          hseparated.conditions_setConditions] using hfixed
  agree_elsewhere d fix hfix p hp a := by
    have hseparated := hsited.separated
    cases d with
    | own r =>
        cases p with
        | own p =>
            have hother : ownPlace r ≠ p := fun h => hp (h ▸ rfl)
            have hread := hsited.writes.read_fix hfix a p
            rwa [if_neg hother] at hread
        | metadata p => simp only [Demand.AgreeAt, hseparated.metadata_fix r fix hfix]
        | condition type => simp only [Demand.AgreeAt, hseparated.conditions_fix r fix hfix]
    | metadata r =>
        obtain rfl := Option.some.inj hfix
        cases p with
        | own p => exact congrFun (hsited.read_setMetadata a _) p
        | metadata p =>
            have hother : r.place ≠ p := fun h => hp (h ▸ rfl)
            simp only [Demand.AgreeAt, Access.change, hseparated.metadata_setMetadata, r.read_fix,
              hother, if_false]
        | condition type =>
            exact congrArg (Condition.find? · type) (hseparated.conditions_setMetadata a _)
    | condition r =>
        obtain rfl := Option.some.inj hfix
        cases p with
        | own p => exact congrFun (hsited.read_setConditions a _) p
        | metadata p => exact congrArg (Metadata.read · p) (hseparated.metadata_setConditions a _)
        | condition type =>
            have hother : r.type ≠ type := fun h => hp (h ▸ rfl)
            simp only [Demand.AgreeAt, Access.change, hseparated.conditions_setConditions,
              r.find?_fix, hother, if_false]
  exists_blend := hsited.exists_demand_blend

theorem watched (hsited : Sited own ownRead ownPlace ownWanted) (start : α) {type : String}
    {rs : List ConditionRequirement} (htype : ∀ r ∈ rs, r.type = type) :
    ConditionRequirement.Watched (fun r => r.leaf.through (Lens.conditions α))
      (fun a => Condition.find? (WithConditions.conditions a) type) rs where
  failureCount_eq := by
    intro r hr a
    exact (ConditionRequirement.watched htype).failureCount_eq r hr _
  revises := by
    intro r hr
    refine ⟨_, rfl, fun a => ?_⟩
    simp only [Access.change, hsited.separated.conditions_setConditions]
    rw [ConditionRequirement.find?_fix, if_pos (htype r hr), htype r hr]
  exists_alike := by
    intro found
    obtain ⟨conditions, halike⟩ := ConditionRequirement.exists_found type found
    refine ⟨WithConditions.setConditions start conditions, ?_⟩
    rwa [hsited.separated.conditions_setConditions]

-- One place at a time, and of each kind of place what its requirements have to be like.
theorem improve_iff [DecidableEq ρ] (hsited : Sited own ownRead ownPlace ownWanted)
    (start : α) (ds : List (Demand ρ)) :
    Leaf.Improve (Demand.leaf own) ds ↔ Demand.Prevail ownPlace ds := by
  have hown (p : ι) :
      Leaf.Improve (Demand.leaf own) (ds.filter (Demand.place ownPlace · = .own p)) ↔
        Leaf.LastPrevails ((ds.filterMap Demand.own?).filter (ownPlace · = p)) := by
    rw [Demand.filter_own, Leaf.improve_map]
    exact hsited.exclusive.improve_iff Leaf.place_of_mem_filter start
  have hmetadata (p : Metadata.Place) :
      Leaf.Improve (Demand.leaf own) (ds.filter (Demand.place ownPlace · = .metadata p)) ↔
        Leaf.LastPrevails
          ((ds.filterMap Demand.metadata?).filter (MetadataRequirement.place · = p)) := by
    have hexclusive := MetadataRequirement.exclusive.through hsited.separated.metadata_lawful rfl
    rw [Demand.filter_metadata, Leaf.improve_map]
    exact hexclusive.improve_iff Leaf.place_of_mem_filter start
  have hcondition (type : String) :
      Leaf.Improve (Demand.leaf own) (ds.filter (Demand.place ownPlace · = .condition type)) ↔
        ConditionRequirement.Prevail
          ((ds.filterMap Demand.condition?).filter (ConditionRequirement.type · = type)) := by
    rw [Demand.filter_condition, Leaf.improve_map]
    exact (hsited.watched start Leaf.place_of_mem_filter).improve_iff
  rw [hsited.placed.improve_iff ds]
  constructor
  · intro himprove
    exact ⟨fun p => (hown p).mp (himprove _), fun p => (hmetadata p).mp (himprove _),
      fun type => (hcondition type).mp (himprove _)⟩
  · intro hprevail p
    cases p with
    | own p => exact (hown p).mpr (hprevail.own p)
    | metadata p => exact (hmetadata p).mpr (hprevail.metadata p)
    | condition type => exact (hcondition type).mpr (hprevail.condition type)

end Sited

theorem SpaceRequirement.sited : Sited leaf Space.read place wanted where
  separated := separated
  writes := writes
  exclusive := exclusive
  check_eq := check_eq_of_read
  read_setMetadata _ _ := by funext p; cases p <;> rfl
  read_setConditions _ _ := by funext p; cases p <;> rfl
  exists_blend := exists_blend

theorem UserSignupRequirement.sited : Sited leaf UserSignup.read place wanted where
  separated := separated
  writes := writes
  exclusive := exclusive
  check_eq := check_eq_of_read
  read_setMetadata _ _ := by funext p; cases p <;> rfl
  read_setConditions _ _ := by funext p; cases p <;> rfl
  exists_blend := exists_blend

end Eventually
