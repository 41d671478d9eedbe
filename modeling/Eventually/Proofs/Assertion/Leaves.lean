import Eventually.Assertion.Marker
import Eventually.Assertion.Repair
import Eventually.Proofs.Assertion.Reports

namespace Eventually

-- A leaf on a part as a leaf on the whole.
def Leaf.through (lens : Lens α β) (l : Leaf β) : Leaf α where
  description := l.description
  check whole :=
    match lens.get? whole with
    | some part => l.check part
    | none => [.viewError ⟨l.description, lens.whole, lens.part⟩]
  name := l.name
  scope := l.scope
  fixer := lens.fixer? l.fixer

mutual

-- The leaves below an assertion, in the order of their declaration and seen from the whole object.
def Assertion.leaves : Assertion α → List (Leaf α)
  | .leaf l => [l]
  | .all members => members.leaves
  | .shared inner => inner.leaves
  | .lift lens inner => inner.leaves.map (Leaf.through lens)

def Checklist.leaves : Checklist α → List (Leaf α)
  | .nil => []
  | .cons head rest => head.leaves ++ rest.leaves

end

mutual

theorem Assertion.leafDescriptions_eq : ∀ a : Assertion α,
    a.leafDescriptions = a.leaves.map Leaf.description
  | .leaf l => rfl
  | .all members => by
      simpa only [Assertion.leafDescriptions, Assertion.leaves] using members.leafDescriptions_eq
  | .shared inner => by
      simpa only [Assertion.leafDescriptions, Assertion.leaves] using inner.leafDescriptions_eq
  | .lift lens inner => by
      simp only [Assertion.leafDescriptions, Assertion.leaves, inner.leafDescriptions_eq,
        List.map_map]
      rfl

theorem Checklist.leafDescriptions_eq : ∀ list : Checklist α,
    list.leafDescriptions = list.leaves.map Leaf.description
  | .nil => rfl
  | .cons head rest => by
      simp only [Checklist.leafDescriptions, Checklist.leaves, head.leafDescriptions_eq,
        rest.leafDescriptions_eq, List.map_append]

end

namespace Checklist

theorem leaves_eq_flatMap : ∀ list : Checklist α, list.leaves = list.toList.flatMap Assertion.leaves
  | nil => rfl
  | cons head rest => by
      simp only [leaves, toList, List.flatMap_cons, leaves_eq_flatMap rest]

theorem fixers_eq_flatMap : ∀ list : Checklist α, list.fixers = list.toList.flatMap Assertion.fixers
  | nil => rfl
  | cons head rest => by
      simp only [fixers, toList, List.flatMap_cons, fixers_eq_flatMap rest]

theorem flatten_eq_flatMap : ∀ list : Checklist α,
    list.flatten = list.toList.flatMap Assertion.flatten
  | nil => rfl
  | cons head rest => by
      simp only [flatten, toList, List.flatMap_cons, flatten_eq_flatMap rest]

theorem mem_leaves_iff (list : Checklist α) (l : Leaf α) :
    l ∈ list.leaves ↔ ∃ a ∈ list.toList, l ∈ a.leaves := by
  rw [leaves_eq_flatMap, List.mem_flatMap]

end Checklist

-- What holds of an object is what a test of it reports no failure on.
def Leaf.Holds (l : Leaf α) (obj : α) : Prop := ∀ r ∈ l.check obj, r.failure? = none

def Assertion.Holds (a : Assertion α) (obj : α) : Prop := ∀ r ∈ a.reports obj, r.failure? = none

instance (l : Leaf α) (obj : α) : Decidable (l.Holds obj) :=
  inferInstanceAs (Decidable (∀ r ∈ l.check obj, r.failure? = none))

theorem Report.forall_failure_iff (messages : List String) :
    (∀ r ∈ messages.map failure, r.failure? = none) ↔ messages = [] := by
  cases messages <;> simp [failure?]

theorem Leaf.through_holds_iff (lens : Lens α β) (l : Leaf β) (obj : α) :
    (l.through lens).Holds obj ↔ ∃ part, lens.get? obj = some part ∧ l.Holds part := by
  simp only [Holds, through]
  cases lens.get? obj with
  | none => simp [Report.failure?]
  | some part => simp

namespace Assertion

theorem holds_all_iff (members : Checklist α) (obj : α) :
    (all members).Holds obj ↔ ∀ a ∈ members.toList, a.Holds obj := by
  simp only [Holds, reports, Checklist.reports_eq_flatMap]
  exact List.forall_mem_flatMap

theorem holds_lift_iff (lens : Lens α β) (inner : Assertion β) (obj : α) :
    (lift lens inner).Holds obj ↔ ∃ part, lens.get? obj = some part ∧ inner.Holds part := by
  simp only [Holds, reports]
  cases lens.get? obj with
  | none => simp [Report.failure?]
  | some part => simp

-- The converse needs lenses that reach their parts: a lift of nothing still reports a view error.
theorem Holds.leaf {a : Assertion α} {obj : α} (hholds : a.Holds obj) :
    ∀ l ∈ a.leaves, l.Holds obj := by
  induction a using Assertion.induct with
  | leaf l => exact List.forall_mem_singleton.mpr hholds
  | all members ih =>
      intro l hl
      obtain ⟨a, ha, hla⟩ := (members.mem_leaves_iff l).mp hl
      exact ih a ha ((holds_all_iff members obj).mp hholds a ha) l hla
  | shared inner ih => exact ih hholds
  | lift lens inner ih =>
      intro l hl
      obtain ⟨m, hm, rfl⟩ := List.mem_map.mp hl
      obtain ⟨part, hpart, hinner⟩ := (holds_lift_iff lens inner obj).mp hholds
      exact (m.through_holds_iff lens obj).mpr ⟨part, hpart, ih hinner m hm⟩

end Assertion

theorem Checklist.leaf_holds_of_passes (list : Checklist α) (obj : α) (hpasses : list.passes obj) :
    ∀ l ∈ list.leaves, l.Holds obj := by
  have hholds : (Assertion.all list).Holds obj := (list.passes_iff obj).mp hpasses
  exact hholds.leaf

-- A lens that reaches its part in every whole. If it replaces parts at all, it does so everywhere,
-- and what was put is what is found.
structure Lens.Lawful (lens : Lens α β) : Prop where
  get?_isSome : ∀ a, (lens.get? a).isSome
  reach_eq : ∀ reach ∈ lens.access?, ∀ a, ∃ x, reach a = .found x ∧ lens.get? a = some x.part ∧
    x.put x.part = a ∧ ∀ part, reach (x.put part) = .found ⟨part, x.put⟩

theorem Lens.Lawful.get?_put {lens : Lens α β} (hlawful : lens.Lawful)
    {reach : α → Access α β} (hreach : reach ∈ lens.access?) {a : α} {x : Focus α β}
    (hx : reach a = .found x) (part : β) : lens.get? (x.put part) = some part := by
  obtain ⟨y, hy, _, _, hput⟩ := hlawful.reach_eq reach hreach a
  obtain rfl : y = x := Access.found.inj (hy.symm.trans hx)
  obtain ⟨z, hz, hget, _, _⟩ := hlawful.reach_eq reach hreach (y.put part)
  obtain rfl : z = ⟨part, y.put⟩ := Access.found.inj (hz.symm.trans (hput part))
  exact hget

mutual

def Assertion.Lawful : Assertion α → Prop
  | .leaf _ => True
  | .all members => members.Lawful
  | .shared inner => inner.Lawful
  | .lift lens inner => lens.Lawful ∧ inner.Lawful

def Checklist.Lawful : Checklist α → Prop
  | .nil => True
  | .cons head rest => head.Lawful ∧ rest.Lawful

end

theorem Checklist.lawful_iff : ∀ list : Checklist α, list.Lawful ↔ ∀ a ∈ list.toList, a.Lawful
  | nil => by simp [Lawful, toList]
  | cons head rest => by simp [Lawful, toList, lawful_iff rest]

namespace Assertion

theorem Lawful.holds_iff {a : Assertion α} (hlawful : a.Lawful) (obj : α) :
    a.Holds obj ↔ ∀ l ∈ a.leaves, l.Holds obj := by
  refine ⟨Holds.leaf, fun hleaves => ?_⟩
  induction a using Assertion.induct with
  | leaf l => exact hleaves l (List.mem_singleton_self l)
  | all members ih =>
      refine (holds_all_iff members obj).mpr fun a ha => ?_
      refine ih a ha ((members.lawful_iff).mp hlawful a ha) obj fun l hl => ?_
      exact hleaves l ((members.mem_leaves_iff l).mpr ⟨a, ha, hl⟩)
  | shared inner ih => exact ih hlawful obj hleaves
  | lift lens inner ih =>
      obtain ⟨part, hpart⟩ := Option.isSome_iff_exists.mp (hlawful.1.get?_isSome obj)
      refine (holds_lift_iff lens inner obj).mpr ⟨part, hpart, ?_⟩
      refine ih hlawful.2 part fun l hl => ?_
      have hthrough := hleaves (l.through lens) (List.mem_map_of_mem hl)
      obtain ⟨other, hother, hholds⟩ := (l.through_holds_iff lens obj).mp hthrough
      obtain rfl : other = part := Option.some.inj (hother.symm.trans hpart)
      exact hholds

end Assertion

theorem Checklist.Lawful.passes_iff {list : Checklist α} (hlawful : list.Lawful) (obj : α) :
    list.passes obj ↔ ∀ l ∈ list.leaves, l.Holds obj := by
  have hall : (Assertion.all list).Lawful := hlawful
  exact (list.passes_iff obj).trans (hall.holds_iff obj)

mutual

-- Where every lens reaches its part, a test reports what the leaves report.
theorem Assertion.Lawful.reports_eq : ∀ {a : Assertion α}, a.Lawful → ∀ obj,
    a.reports obj = a.leaves.flatMap fun l => l.check obj
  | .leaf l, _, obj => by
      simp only [Assertion.reports, Assertion.leaves, List.flatMap_cons, List.flatMap_nil,
        List.append_nil]
  | .all members, hlawful, obj => by
      simpa only [Assertion.reports, Assertion.leaves] using
        Checklist.Lawful.reports_eq hlawful obj
  | .shared inner, hlawful, obj => by
      have hinner : inner.Lawful := hlawful
      simpa only [Assertion.reports, Assertion.leaves] using hinner.reports_eq obj
  | .lift lens inner, hlawful, obj => by
      obtain ⟨hlens, hinner⟩ := hlawful
      obtain ⟨part, hpart⟩ := Option.isSome_iff_exists.mp (hlens.get?_isSome obj)
      simp only [Assertion.reports, Assertion.leaves, List.flatMap_map, Leaf.through, hpart]
      exact hinner.reports_eq part

theorem Checklist.Lawful.reports_eq : ∀ {list : Checklist α}, list.Lawful → ∀ obj,
    list.reports obj = list.leaves.flatMap fun l => l.check obj
  | .nil, _, _ => rfl
  | .cons head rest, hlawful, obj => by
      obtain ⟨hhead, hrest⟩ := hlawful
      simp only [Checklist.reports, Checklist.leaves, List.flatMap_append, hhead.reports_eq,
        hrest.reports_eq]

end

-- A marker shows behind a lift exactly when there is one, so lifting hides none.
theorem Markers.exposed_eq (markers : Markers) : markers.exposed = markers := by
  obtain ⟨names, scopes⟩ := markers
  cases names <;> cases scopes <;> rfl

mutual

theorem Assertion.markers_eq : ∀ a : Assertion α,
    a.markers = ⟨a.leaves.filterMap Leaf.name, a.leaves.filterMap Leaf.scope⟩
  | .leaf l => by
      cases hname : l.name <;> cases hscope : l.scope <;>
        simp [Assertion.markers, Assertion.leaves, hname, hscope]
  | .all members => by
      simpa only [Assertion.markers, Assertion.leaves] using members.markers_eq
  | .shared inner => by
      simpa only [Assertion.markers, Assertion.leaves] using inner.markers_eq
  | .lift lens inner => by
      simp only [Assertion.markers, Assertion.leaves, Markers.exposed_eq, inner.markers_eq,
        List.filterMap_map]
      rfl

theorem Checklist.markers_eq : ∀ list : Checklist α,
    list.markers = ⟨list.leaves.filterMap Leaf.name, list.leaves.filterMap Leaf.scope⟩
  | .nil => rfl
  | .cons head rest => by
      simp only [Checklist.markers, Checklist.leaves, Markers.append, head.markers_eq,
        rest.markers_eq, List.filterMap_append]

end

-- A fixer behind a lens changes the part that the lens reaches for.
theorem Lens.exists_of_mem_fixer? {lens : Lens α β} {inner : Option (β → β)} {fix : α → α}
    (hfix : fix ∈ lens.fixer? inner) :
    ∃ fixPart ∈ inner, ∀ obj, fix obj = (lens.access obj).change fixPart := by
  unfold fixer? at hfix
  split at hfix
  · rename_i reach fixPart hreach
    obtain rfl := Option.some.inj hfix
    exact ⟨fixPart, rfl, fun obj => by simp only [access, hreach]⟩
  · cases hfix

-- Every fixer of a part, put behind a lens, works on the part that the lens has reached.
theorem applyFixers_through {lens : Lens α β} {reach : α → Access α β}
    (hreach : lens.access? = some reach) (put : β → α)
    (hput : ∀ part, reach (put part) = .found ⟨part, put⟩) (fixers : List (Option (β → β)))
    (part : β) :
    applyFixers (fixers.map lens.fixer?) (put part) = put (applyFixers fixers part) := by
  induction fixers generalizing part with
  | nil => rfl
  | cons fixer rest ih =>
      simp only [applyFixers, List.map_cons, List.foldl_cons] at ih ⊢
      cases fixer with
      | none => simpa only [Lens.fixer?, hreach, Option.elim] using ih part
      | some fix =>
          simpa only [Lens.fixer?, hreach, Option.elim, hput part, Access.change] using
            ih (fix part)

theorem applyFixers_of_none {fixers : List (Option (α → α))}
    (hnone : ∀ fixer ∈ fixers, fixer = none) (obj : α) : applyFixers fixers obj = obj := by
  induction fixers generalizing obj with
  | nil => rfl
  | cons fixer rest ih =>
      obtain ⟨rfl, hrest⟩ := List.forall_mem_cons.mp hnone
      exact ih hrest obj

mutual

-- Where every lens reaches its part, a repair applies the fixers of the leaves in their order.
theorem Assertion.Lawful.repair_object : ∀ {a : Assertion α}, a.Lawful → ∀ obj,
    (a.repair obj).object = applyFixers (a.leaves.map Leaf.fixer) obj
  | .leaf l, _, obj => by
      cases hfixer : l.fixer <;>
        simp [Assertion.repair, Assertion.leaves, applyFixers, hfixer]
  | .all members, hlawful, obj => by
      simpa only [Assertion.repair, Assertion.leaves] using
        Checklist.Lawful.repair_object hlawful obj
  | .shared inner, hlawful, obj => by
      have hinner : inner.Lawful := hlawful
      simpa only [Assertion.repair, Assertion.leaves] using hinner.repair_object obj
  | .lift lens inner, hlawful, obj => by
      obtain ⟨hlens, hinner⟩ := hlawful
      have hfixers : (inner.leaves.map (Leaf.through lens)).map Leaf.fixer =
          (inner.leaves.map Leaf.fixer).map lens.fixer? := by
        simp only [List.map_map]
        rfl
      rw [Assertion.leaves, hfixers, Assertion.repair, Lens.access]
      cases hreach : lens.access? with
      | none =>
          refine (applyFixers_of_none (fun fixer hfixer => ?_) obj).symm
          obtain ⟨_, _, rfl⟩ := List.mem_map.mp hfixer
          simp only [Lens.fixer?, hreach]
      | some reach =>
          obtain ⟨x, hx, _, hsame, hput⟩ := hlens.reach_eq reach hreach obj
          simp only [hx, Repaired.map]
          rw [hinner.repair_object, ← applyFixers_through hreach x.put hput, hsame]

theorem Checklist.Lawful.repair_object : ∀ {list : Checklist α}, list.Lawful → ∀ obj,
    (list.repair obj).object = applyFixers (list.leaves.map Leaf.fixer) obj
  | .nil, _, _ => rfl
  | .cons head rest, hlawful, obj => by
      obtain ⟨hhead, hrest⟩ := hlawful
      simp only [Checklist.repair, Repaired.andThen, Checklist.leaves, hhead.repair_object,
        hrest.repair_object, applyFixers, List.map_append, List.foldl_append]

end

end Eventually
