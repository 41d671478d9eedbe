import Eventually.Proofs.Assertion.Collecting
import Eventually.Proofs.Assertion.Fixable
import Eventually.Proofs.Assertion.Walk
import Mathlib.Data.List.Basic

namespace Eventually

theorem applyFixers_append (first second : List (Option (α → α))) (obj : α) :
    applyFixers (first ++ second) obj = applyFixers second (applyFixers first obj) := by
  unfold applyFixers
  rw [List.foldl_append]

theorem applyFixers_singleton {fixer : Option (α → α)} {fix : α → α} (hfix : fix ∈ fixer)
    (obj : α) : applyFixers [fixer] obj = fix obj := by
  obtain rfl : fixer = some fix := hfix
  rfl

namespace Assertion

theorem fixer?_isSome_iff (a : Assertion α) :
    a.fixer?.isSome ↔ ∀ fixer ∈ a.fixers, fixer.isSome := by
  induction a using Assertion.induct with
  | leaf l => rw [fixer?, fixers, List.forall_mem_singleton]
  | all members => exact joinFixers_isSome_iff members.fixers
  | shared inner ih => exact ih
  | lift lens inner => rw [fixer?, fixers, List.forall_mem_singleton]

-- What an assertion offers is what its flattened members offer, one after the other.
theorem applyFixers_fixers {a : Assertion α} {fix : α → α} (hfix : fix ∈ a.fixer?) (obj : α) :
    applyFixers a.fixers obj = fix obj := by
  induction a using Assertion.induct with
  | leaf l => exact applyFixers_singleton hfix obj
  | all members =>
      rw [fixer?, joinFixers] at hfix
      split at hfix
      · obtain rfl := Option.some.inj hfix
        rfl
      · cases hfix
  | shared inner ih => exact ih hfix obj
  | lift lens inner => exact applyFixers_singleton hfix obj

theorem fixers_of_no_members {a : Assertion α} (hnone : a.members? = none) :
    a.fixers = [a.fixer?] := by
  induction a using Assertion.induct with
  | leaf l => rfl
  | all members => cases hnone
  | shared inner ih => exact ih hnone
  | lift lens inner => rfl

end Assertion

namespace Checklist

theorem fixers_eq_map_flatten (list : Checklist α) :
    list.fixers = list.flatten.map Assertion.fixer? := by
  rw [fixers_seesThrough.eq_flatMap list, List.map_eq_flatMap]
  refine List.flatMap_congr fun a ha => ?_
  exact Assertion.fixers_of_no_members (list.members?_of_mem_flatten ha)

theorem eachFixable_iff (list : Checklist α) :
    list.EachFixable ↔ ∀ fixer ∈ list.fixers, fixer.isSome := by
  unfold EachFixable
  rw [list.fixers_eq_flatMap, List.forall_mem_flatMap]
  exact forall₂_congr fun a _ => a.fixer?_isSome_iff

theorem offersFixer_iff (list : Checklist α) : list.offersFixer ↔ list.EachFixable := by
  rw [eachFixable_iff]
  exact joinFixers_isSome_iff list.fixers

theorem fix_cons (head : Assertion α) (rest : Checklist α) (obj : α) :
    (cons head rest).fix obj = rest.fix (applyFixers head.fixers obj) :=
  applyFixers_append head.fixers rest.fixers obj

-- The direct members may be lists, and then fix the object by what they are made of.
theorem applyFixers_members : ∀ {list : Checklist α}, list.EachFixable → ∀ obj,
    applyFixers (list.toList.map Assertion.fixer?) obj = list.fix obj
  | nil, _, _ => rfl
  | cons head rest, heach, obj => by
      obtain ⟨hhead, hrest⟩ := List.forall_mem_cons.mp heach
      obtain ⟨fix, hfix⟩ := Option.isSome_iff_exists.mp hhead
      have hfirst : applyFixers [head.fixer?] obj = applyFixers head.fixers obj :=
        (applyFixers_singleton hfix obj).trans (Assertion.applyFixers_fixers hfix obj).symm
      rw [fix_cons, ← hfirst, ← applyFixers_members hrest, ← applyFixers_append]
      rfl

-- One member after the other is repaired, so it is enough that each of them, which is repaired on
-- the copy that those before it have left, is repaired as it would fix that copy.
theorem fix_eq_repair_of_members : ∀ {list : Checklist α}, list.EachFixable →
    (∀ a ∈ list.toList, ∀ fix ∈ a.fixer?, ∀ obj, fix obj = (a.repair obj).object) →
    ∀ obj, list.fix obj = (list.repair obj).object
  | nil, _, _, _ => rfl
  | cons head rest, heach, hmembers, obj => by
      obtain ⟨hhead, hrest⟩ := List.forall_mem_cons.mp heach
      obtain ⟨hrepair, hmembers'⟩ := List.forall_mem_cons.mp hmembers
      obtain ⟨fix, hfix⟩ := Option.isSome_iff_exists.mp hhead
      have hfirst : applyFixers head.fixers obj = (head.repair obj).object :=
        (Assertion.applyFixers_fixers hfix obj).trans (hrepair fix hfix obj)
      rw [fix_cons, hfirst, fix_eq_repair_of_members hrest hmembers', repair]
      rfl

end Checklist

-- A lift hands the part it has found to the fixer in one case and to the repair in the other, and
-- what it puts back is what they leave.
theorem Assertion.fix_eq_repair {a : Assertion α} {fix : α → α} (hfix : fix ∈ a.fixer?) (obj : α) :
    fix obj = (a.repair obj).object := by
  induction a using Assertion.induct with
  | leaf l =>
      have hl : l.fixer = some fix := hfix
      rw [repair, hl]
  | all members ih =>
      have hoffers : (Assertion.all members).fixer?.isSome := Option.isSome_of_mem hfix
      have heach := members.offersFixer_iff.mp hoffers
      have hmembers : ∀ a ∈ members.toList, ∀ fix ∈ a.fixer?, ∀ obj,
          fix obj = (a.repair obj).object := fun a ha fix hfix obj => ih a ha hfix obj
      have hrepair := Checklist.fix_eq_repair_of_members heach hmembers obj
      rw [← applyFixers_fixers hfix obj, repair]
      exact hrepair
  | shared inner ih => exact ih hfix obj
  | lift lens inner ih =>
      obtain ⟨fixPart, hinner, hfix⟩ := lens.exists_of_mem_fixer? hfix
      rw [hfix, repair]
      cases lens.access obj with
      | missed left => rfl
      | found x => exact congrArg x.put (ih hinner x.part)

-- The lens can replace its part, and yet does not reach it in the copy as it is then.
def Passage.Missed (p : Passage α) : Prop :=
  ∃ reach ∈ p.lens.access?, ∃ x ∈ p.focus, ∃ left, reach x.part = .missed left

mutual

-- Whatever comes up in the walk of an assertion that offers a fixer could be fixed.
theorem Assertion.visits_of_fixer? : ∀ {a : Assertion α}, a.fixer?.isSome → ∀ copy,
    ∀ v ∈ a.visits copy, v.leaf.Fixable ∧ ∀ p ∈ v.lifts, p.lens.access?.isSome
  | .leaf l, hoffers, copy => by
      intro v hv
      obtain rfl := List.mem_singleton.mp hv
      exact ⟨hoffers, List.forall_mem_nil _⟩
  | .all members, hoffers, copy => by
      have heach := members.offersFixer_iff.mp hoffers
      exact Checklist.visits_of_eachFixable heach copy
  | .shared inner, hoffers, copy => by
      have hinner : inner.fixer?.isSome := hoffers
      have hvisits := Assertion.visits_of_fixer? hinner copy
      exact hvisits
  | .lift lens inner, hoffers, copy => by
      obtain ⟨haccess, hinner⟩ := (lens.fixer?_isSome_iff inner.fixer?).mp hoffers
      intro v hv
      rw [Assertion.visits_lift] at hv
      obtain ⟨w, hw, rfl⟩ := List.mem_map.mp hv
      obtain ⟨hfixable, hlifts⟩ := Assertion.visits_of_fixer? hinner _ w hw
      refine ⟨hfixable, List.forall_mem_cons.mpr ⟨haccess, fun p hp => ?_⟩⟩
      obtain ⟨q, hq, rfl⟩ := List.mem_map.mp hp
      exact hlifts q hq

theorem Checklist.visits_of_eachFixable : ∀ {list : Checklist α}, list.EachFixable → ∀ copy,
    ∀ v ∈ list.visits copy, v.leaf.Fixable ∧ ∀ p ∈ v.lifts, p.lens.access?.isSome
  | .nil, _, _ => List.forall_mem_nil _
  | .cons head rest, heach, copy => by
      obtain ⟨hhead, hrest⟩ := List.forall_mem_cons.mp heach
      rw [Checklist.visits_cons]
      exact List.forall_mem_append.mpr
        ⟨Assertion.visits_of_fixer? hhead copy, Checklist.visits_of_eachFixable hrest _⟩

end

theorem Passage.shut_iff_missed {p : Passage α} (haccess : p.lens.access?.isSome) :
    p.Shut ↔ p.Missed := by
  unfold Shut Missed
  constructor
  · rintro (hnone | hmissed)
    · rw [hnone] at haccess
      cases haccess
    · exact hmissed
  · exact .inr

theorem Step.takeAll_unexplained {steps : List (Step α)}
    (hsteps : ∀ v ∈ steps.filterMap visit?, v.leaf.Fixable) (copy : α) :
    (takeAll steps copy).unexplained =
      ((steps.filterMap visit?).filter fun v => v.focus.isNone).map
        fun v => v.leaf.description := by
  induction steps generalizing copy with
  | nil => rfl
  | cons step rest ih =>
      cases step with
      | entered p => exact ih hsteps _
      | came v =>
          obtain ⟨hv, hrest⟩ := List.forall_mem_cons.mp hsteps
          obtain ⟨fix, hfix⟩ := Option.isSome_iff_exists.mp hv
          rw [takeAll, take, Repaired.andThen, ih hrest]
          cases hfocus : v.focus <;>
            simp [Visit.treat, hfocus, hfix, visit?]

namespace Checklist

-- All ways of fixing leave one object: the fixers of the flattened members, the fixer of the list,
-- those of its direct members, and the repair. The repair puts down the leaves that a lift around
-- them has kept from the copy, and no others.
structure FixesAlike (list : Checklist α) (obj : α) : Prop where
  fix_eq : list.fix obj = (list.repair obj).object
  flatten_eq : applyFixers (list.flatten.map Assertion.fixer?) obj = (list.repair obj).object
  fixer_eq : ∃ fix ∈ (Assertion.all list).fixer?, fix obj = (list.repair obj).object
  members_eq : (∀ a ∈ list.toList, a.fixer?.isSome) ∧
    applyFixers (list.toList.map Assertion.fixer?) obj = (list.repair obj).object
  unexplained_eq : (list.repair obj).unexplained =
    ((list.visits (some obj)).filter fun v => v.focus.isNone).map fun v => v.leaf.description
  missed_iff : ∀ v ∈ list.visits (some obj), v.focus.isNone ↔ ∃ p ∈ v.lifts, p.Missed
  explained_iff : (list.repair obj).unexplained = [] ↔
    ∀ v ∈ list.visits (some obj), ∀ p ∈ v.lifts, ¬p.Missed

theorem offered_fixes_alike (list : Checklist α) (hoffers : list.offersFixer) (obj : α) :
    list.FixesAlike obj := by
  have heach := list.offersFixer_iff.mp hoffers
  obtain ⟨fix, hfix⟩ := Option.isSome_iff_exists.mp hoffers
  have hfixer : fix obj = (list.repair obj).object := Assertion.fix_eq_repair hfix obj
  have hflat : list.fix obj = fix obj := Assertion.applyFixers_fixers hfix obj
  have hvisits := visits_of_eachFixable heach (some obj)
  have hlisted : (list.repair obj).unexplained =
      ((list.visits (some obj)).filter fun v => v.focus.isNone).map
        fun v => v.leaf.description := by
    rw [list.repair_eq_takeAll obj]
    exact Step.takeAll_unexplained (fun v hv => (hvisits v hv).1) obj
  have hmissed : ∀ v ∈ list.visits (some obj), v.focus.isNone ↔ ∃ p ∈ v.lifts, p.Missed := by
    intro v hv
    rw [Option.isNone_iff_eq_none, list.focus_eq_none_iff obj v hv]
    refine exists_congr fun p => and_congr_right fun hp => ?_
    exact Passage.shut_iff_missed ((hvisits v hv).2 p hp)
  constructor
  case fix_eq => exact hflat.trans hfixer
  case flatten_eq =>
    rw [← list.fixers_eq_map_flatten]
    exact hflat.trans hfixer
  case fixer_eq => exact ⟨fix, hfix, hfixer⟩
  case members_eq => exact ⟨heach, (applyFixers_members heach obj).trans (hflat.trans hfixer)⟩
  case unexplained_eq => exact hlisted
  case missed_iff => exact hmissed
  case explained_iff =>
    rw [hlisted, List.map_eq_nil_iff, List.filter_eq_nil_iff]
    refine forall₂_congr fun v hv => ?_
    rw [hmissed v hv]
    simp only [not_exists, not_and]

-- A lift that is open for a list, which shuts it for the leaf behind.
def closing : Checklist Item :=
  .ofList [.leaf (ItemRequirement.value 2).leaf,
    whenTwo (.all (.ofList [.leaf (ItemRequirement.value 3).leaf,
      .leaf (ItemRequirement.value 4).leaf])),
    .all (.ofList [whenTwo (.leaf (ItemRequirement.value 5).leaf)])]

theorem offered_fixes_alike_of_closing :
    closing.offersFixer ∧ closing.FixesAlike ⟨"toolchain", "gauge", 0⟩ ∧
      closing.fix ⟨"toolchain", "gauge", 0⟩ = ⟨"toolchain", "gauge", 4⟩ ∧
      (closing.repair ⟨"toolchain", "gauge", 0⟩).unexplained = ["ValueIs"] := by
  have hoffers : closing.offersFixer := by decide
  have hfix : closing.fix ⟨"toolchain", "gauge", 0⟩ = ⟨"toolchain", "gauge", 4⟩ := by decide
  exact ⟨hoffers, closing.offered_fixes_alike hoffers _, hfix, by decide⟩

-- Where a list does not offer its fixer they come apart: a lift over leaves of which one has no
-- fixer offers none, and yet the others below it take part in a repair.
example :
    let list : Checklist Item := .ofList [whenTwo (.all (.ofList
      [.leaf (ItemRequirement.value 3).leaf, .leaf (ItemRequirement.name "counter").leaf]))]
    list.offersFixer = false ∧ list.fix ⟨"toolchain", "gauge", 2⟩ = ⟨"toolchain", "gauge", 2⟩ ∧
      (list.repair ⟨"toolchain", "gauge", 2⟩).object = ⟨"toolchain", "gauge", 3⟩ := by
  decide

end Checklist

end Eventually
