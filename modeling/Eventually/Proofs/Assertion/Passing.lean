import Eventually.Proofs.Assertion.Leaves

namespace Eventually

-- The fixer changes nothing where nothing is amiss.
def Leaf.Restrained (l : Leaf α) : Prop := ∀ obj, l.Holds obj → ∀ fix ∈ l.fixer, fix obj = obj

-- Reaching for the part to replace it changes nothing, and where it is reached it is the part that
-- is read there.
structure Lens.OnePart (lens : Lens α β) : Prop where
  projects : lens.Projects
  part_eq : ∀ obj x, lens.access obj = .found x → ∀ part ∈ lens.get? obj, x.part = part

-- What can be made of leaves of a kind by nesting in checklists and by lenses of one part each,
-- which need not reach it.
inductive Assertion.MadeOf (kind : ∀ α : Type, Leaf α → Prop) : {α : Type} → Assertion α → Prop
  | leaf {l : Leaf α} (hl : kind α l) : MadeOf kind (.leaf l)
  | all {members : Checklist α} (hmembers : ∀ a ∈ members.toList, MadeOf kind a) :
      MadeOf kind (.all members)
  | shared {inner : Assertion α} (hinner : MadeOf kind inner) : MadeOf kind (.shared inner)
  | lift {lens : Lens α β} {inner : Assertion β} (hlens : lens.OnePart)
      (hinner : MadeOf kind inner) : MadeOf kind (.lift lens inner)

-- No way of fixing an assertion changes the object.
structure Assertion.Idle (a : Assertion α) (obj : α) : Prop where
  repair_eq : (a.repair obj).object = obj
  each_eq : ∀ fixer ∈ a.fixers, ∀ fix ∈ fixer, fix obj = obj
  fixer_eq : ∀ fix ∈ a.fixer?, fix obj = obj

theorem applyFixers_of_fixed {fixers : List (Option (α → α))} {obj : α}
    (hfixed : ∀ fixer ∈ fixers, ∀ fix ∈ fixer, fix obj = obj) : applyFixers fixers obj = obj := by
  induction fixers with
  | nil => rfl
  | cons fixer rest ih =>
      obtain ⟨hfixer, hrest⟩ := List.forall_mem_cons.mp hfixed
      have hfirst : (fixer.elim obj fun fix => fix obj) = obj := by
        cases fixer with
        | none => rfl
        | some fix => exact hfixer fix rfl
      rw [applyFixers, List.foldl_cons, hfirst]
      exact ih hrest

theorem joinFixers_of_fixed {fixers : List (Option (α → α))} {obj : α}
    (hfixed : ∀ fixer ∈ fixers, ∀ fix ∈ fixer, fix obj = obj) :
    ∀ fix ∈ joinFixers fixers, fix obj = obj := by
  intro fix hfix
  unfold joinFixers at hfix
  split at hfix
  · obtain rfl := Option.some.inj hfix
    exact applyFixers_of_fixed hfixed
  · cases hfix

-- A fixer behind a lens puts back the part that it has found.
theorem Lens.Projects.fixer?_of_fixed {lens : Lens α β} (hlens : lens.Projects)
    {inner : Option (β → β)} {obj : α}
    (hfixed : ∀ x, lens.access obj = .found x → ∀ fix ∈ inner, fix x.part = x.part) :
    ∀ fix ∈ lens.fixer? inner, fix obj = obj := by
  intro fix hfix
  obtain ⟨fixPart, hinner, hchange⟩ := lens.exists_of_mem_fixer? hfix
  have hwhole := hlens obj
  rw [hchange]
  cases hx : lens.access obj with
  | missed left =>
      rw [hx] at hwhole
      exact hwhole
  | found x =>
      rw [hx] at hwhole
      simp only [Access.change, hfixed x hx fixPart hinner]
      exact hwhole

namespace Checklist

theorem repair_of_idle {obj : α} : ∀ {list : Checklist α}, (∀ a ∈ list.toList, a.Idle obj) →
    (list.repair obj).object = obj
  | nil, _ => rfl
  | cons head rest, hmembers => by
      obtain ⟨hhead, hrest⟩ := List.forall_mem_cons.mp hmembers
      rw [repair, Repaired.andThen, hhead.repair_eq, repair_of_idle hrest]

theorem fixers_of_idle {obj : α} : ∀ {list : Checklist α}, (∀ a ∈ list.toList, a.Idle obj) →
    ∀ fixer ∈ list.fixers, ∀ fix ∈ fixer, fix obj = obj
  | nil, _ => List.forall_mem_nil _
  | cons head rest, hmembers => by
      obtain ⟨hhead, hrest⟩ := List.forall_mem_cons.mp hmembers
      exact List.forall_mem_append.mpr ⟨hhead.each_eq, fixers_of_idle hrest⟩

theorem idle_of_members {list : Checklist α} {obj : α} (hmembers : ∀ a ∈ list.toList, a.Idle obj) :
    (Assertion.all list).Idle obj where
  repair_eq := repair_of_idle hmembers
  each_eq := fixers_of_idle hmembers
  fixer_eq := joinFixers_of_fixed (fixers_of_idle hmembers)

end Checklist

-- The part that is reached passes what the part that is read does, so nothing is put back but what
-- was found. Where the lens fails to reach its part, nothing is done at all.
theorem Assertion.Idle.lift {lens : Lens α β} (hlens : lens.OnePart) {inner : Assertion β} {obj : α}
    {part : β} (hpart : lens.get? obj = some part) (hinner : inner.Idle part) :
    (Assertion.lift lens inner).Idle obj := by
  have hsame : ∀ x, lens.access obj = .found x → x.part = part :=
    fun x hx => hlens.part_eq obj x hx part hpart
  have hfixer : ∀ fix ∈ lens.fixer? inner.fixer?, fix obj = obj := by
    refine hlens.projects.fixer?_of_fixed fun x hx fix hfix => ?_
    rw [hsame x hx]
    exact hinner.fixer_eq fix hfix
  constructor
  case repair_eq =>
    have hwhole := hlens.projects obj
    rw [repair]
    cases hx : lens.access obj with
    | missed left =>
        rw [hx] at hwhole
        exact hwhole
    | found x =>
        rw [hx] at hwhole
        have hx' := hsame x hx
        simp only [Repaired.map]
        rw [hx', hinner.repair_eq, ← hx']
        exact hwhole
  case each_eq => exact List.forall_mem_singleton.mpr hfixer
  case fixer_eq => exact hfixer

theorem Leaf.Restrained.idle {l : Leaf α} (hrestrained : l.Restrained) {obj : α}
    (hholds : l.Holds obj) : (Assertion.leaf l).Idle obj := by
  have hfixer := hrestrained obj hholds
  constructor
  case repair_eq =>
    rw [Assertion.repair]
    cases hl : l.fixer with
    | none => rfl
    | some fix => exact hfixer fix hl
  case each_eq => exact List.forall_mem_singleton.mpr hfixer
  case fixer_eq => exact hfixer

theorem Assertion.Idle.shared {inner : Assertion α} {obj : α} (hinner : inner.Idle obj) :
    (Assertion.shared inner).Idle obj :=
  ⟨hinner.repair_eq, hinner.each_eq, hinner.fixer_eq⟩

theorem Assertion.MadeOf.idle {kind : ∀ α : Type, Leaf α → Prop}
    (hkind : ∀ α l, kind α l → l.Restrained) {a : Assertion α} (ha : a.MadeOf kind) {obj : α}
    (hholds : a.Holds obj) : a.Idle obj := by
  induction ha with
  | leaf hl => exact (hkind _ _ hl).idle hholds
  | all _ ih =>
      refine Checklist.idle_of_members fun a ha => ?_
      exact ih a ha ((Assertion.holds_all_iff _ obj).mp hholds a ha)
  | shared _ ih => exact (ih hholds).shared
  | lift hlens _ ih =>
      obtain ⟨part, hpart, hinner⟩ := (Assertion.holds_lift_iff _ _ obj).mp hholds
      exact .lift hlens hpart (ih hinner)

end Eventually
