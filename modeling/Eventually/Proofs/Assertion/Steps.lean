import Eventually.Assertion.Repair
import Eventually.Proofs.Assertion.Reports

namespace Eventually

namespace Focus

-- A whole as the part of itself.
def whole (obj : α) : Focus α α := ⟨obj, fun part => part⟩

-- A part of a part.
def within (x : Focus α β) (y : Focus β γ) : Focus α γ := ⟨y.part, fun part => x.put (y.put part)⟩

end Focus

-- A lift as the walk of a repair has come to it, once for all leaves below it: its lens, and where
-- in the copy the whole is that the lens looks at. There is no such place where a lift further out
-- was shut.
structure Passage (α : Type) where
  {whole part : Type}
  lens : Lens whole part
  focus : Option (Focus α whole)

namespace Passage

-- The lens only reads, or it does not reach its part in the copy as it is then.
def Shut (p : Passage α) : Prop :=
  p.lens.access? = none ∨
    ∃ reach ∈ p.lens.access?, ∃ x ∈ p.focus, ∃ left, reach x.part = .missed left

-- The copy as the lens leaves it in reaching for its part.
def enter (p : Passage α) (copy : α) : α :=
  match p.focus with
  | some x => x.put (p.lens.access x.part).whole
  | none => copy

-- A passage below a lift, seen from the whole.
def within (x : Option (Focus α β)) (p : Passage β) : Passage α where
  lens := p.lens
  focus := x.bind fun x => p.focus.map x.within

end Passage

-- A leaf as the walk has come to it: the lifts around it from outside inwards, and the part of the
-- copy that they have led to.
structure Visit (α : Type) where
  {part : Type}
  leaf : Leaf part
  lifts : List (Passage α)
  focus : Option (Focus α part)

namespace Visit

-- A visit below a lift, seen from the whole.
def within (p : Passage α) (x : Option (Focus α β)) (v : Visit β) : Visit α where
  leaf := v.leaf
  lifts := p :: v.lifts.map (Passage.within x)
  focus := x.bind fun x => v.focus.map x.within

-- The leaf is fixed in its part of the copy, or its description is put down.
def treat (v : Visit α) (copy : α) : Repaired α :=
  match v.focus, v.leaf.fixer with
  | some x, some fix => ⟨x.put (fix x.part), []⟩
  | _, _ => ⟨copy, [v.leaf.description]⟩

-- Nothing is known to fix the leaf, or a lift around it is shut.
def Unfixable (v : Visit α) : Prop := v.leaf.fixer = none ∨ ∃ p ∈ v.lifts, p.Shut

end Visit

-- The walk enters a lift, or it comes to a leaf.
inductive Step (α : Type) where
  | entered (p : Passage α)
  | came (v : Visit α)

namespace Step

def within (p : Passage α) (x : Option (Focus α β)) : Step β → Step α
  | entered q => entered (q.within x)
  | came v => came (v.within p x)

def take : Step α → α → Repaired α
  | entered p, copy => ⟨p.enter copy, []⟩
  | came v, copy => v.treat copy

def takeAll : List (Step α) → α → Repaired α
  | [], copy => ⟨copy, []⟩
  | step :: rest, copy => (step.take copy).andThen (takeAll rest)

def visit? : Step α → Option (Visit α)
  | entered _ => none
  | came v => some v

end Step

mutual

-- A repair step by step. It comes to each leaf once, and to each lift before the leaves below it.
def Assertion.steps : Assertion α → Option α → List (Step α)
  | .leaf l, copy => [.came ⟨l, [], copy.map Focus.whole⟩]
  | .all members, copy => members.steps copy
  | .shared inner, copy => inner.steps copy
  | .lift lens inner, copy =>
      let p : Passage α := ⟨lens, copy.map Focus.whole⟩
      let x := copy.bind fun obj => (lens.access obj).focus?
      .entered p :: (inner.steps (x.map Focus.part)).map (Step.within p x)

def Checklist.steps : Checklist α → Option α → List (Step α)
  | .nil, _ => []
  | .cons head rest, copy =>
      let first := head.steps copy
      first ++ rest.steps (copy.map fun obj => (Step.takeAll first obj).object)

end

-- The leaves in the order in which a repair comes to them.
def Assertion.visits (a : Assertion α) (copy : Option α) : List (Visit α) :=
  (a.steps copy).filterMap Step.visit?

def Checklist.visits (list : Checklist α) (copy : Option α) : List (Visit α) :=
  (list.steps copy).filterMap Step.visit?

theorem Repaired.andThen_assoc (repaired : Repaired α) (first second : α → Repaired α) :
    (repaired.andThen first).andThen second =
      repaired.andThen fun copy => (first copy).andThen second := by
  simp only [andThen, List.append_assoc]

theorem Repaired.map_andThen (f : α → β) (repaired : Repaired α) (first : α → Repaired α)
    (second : β → Repaired β) (hsecond : ∀ copy, second (f copy) = (first copy).map f) :
    (repaired.map f).andThen second = (repaired.andThen first).map f := by
  simp only [andThen, map, hsecond]

theorem Step.visit?_within (p : Passage α) (x : Option (Focus α β)) (step : Step β) :
    (step.within p x).visit? = step.visit?.map (Visit.within p x) := by
  cases step <;> rfl

theorem Step.visits_within (p : Passage α) (x : Option (Focus α β)) (steps : List (Step β)) :
    (steps.map (within p x)).filterMap visit? =
      (steps.filterMap visit?).map (Visit.within p x) := by
  simp only [List.filterMap_map, Function.comp_def, visit?_within, List.map_filterMap]

namespace Checklist

theorem visits_cons (head : Assertion α) (rest : Checklist α) (copy : Option α) :
    (cons head rest).visits copy = head.visits copy ++
      rest.visits (copy.map fun obj => (Step.takeAll (head.steps copy) obj).object) := by
  simp only [visits, steps, List.filterMap_append, Assertion.visits]

end Checklist

namespace Assertion

theorem visits_lift (lens : Lens α β) (inner : Assertion β) (copy : Option α) :
    (lift lens inner).visits copy =
      let x := copy.bind fun obj => (lens.access obj).focus?
      (inner.visits (x.map Focus.part)).map
        (Visit.within ⟨lens, copy.map Focus.whole⟩ x) := by
  simp only [visits, steps, List.filterMap_cons, Step.visit?, Step.visits_within]

end Assertion

namespace Step

theorem takeAll_append (first second : List (Step α)) (copy : α) :
    takeAll (first ++ second) copy = (takeAll first copy).andThen (takeAll second) := by
  induction first generalizing copy with
  | nil => rfl
  | cons step rest ih =>
      have hrest : takeAll (rest ++ second) = fun copy =>
          (takeAll rest copy).andThen (takeAll second) := funext ih
      rw [List.cons_append, takeAll, takeAll, hrest, Repaired.andThen_assoc]

theorem takeAll_concat (steps : List (Step α)) (step : Step α) (copy : α) :
    takeAll (steps ++ [step]) copy = (takeAll steps copy).andThen step.take := by
  rw [takeAll_append]
  simp [takeAll, Repaired.andThen]

-- Below a lift that is open, the copy of the whole holds the copy of the part.
theorem take_within (p : Passage α) (x : Focus α β) (step : Step β) (part : β) :
    (step.within p (some x)).take (x.put part) = (step.take part).map x.put := by
  cases step with
  | entered q =>
      simp only [within, take, Passage.enter, Passage.within, Option.bind_some]
      cases q.focus <;> rfl
  | came v =>
      simp only [within, take, Visit.treat, Visit.within, Option.bind_some]
      cases v.focus <;> cases v.leaf.fixer <;> rfl

theorem takeAll_within (p : Passage α) (x : Focus α β) (steps : List (Step β)) (part : β) :
    takeAll (steps.map (within p (some x))) (x.put part) = (takeAll steps part).map x.put := by
  induction steps generalizing part with
  | nil => rfl
  | cons step rest ih =>
      rw [List.map_cons, takeAll, takeAll, take_within]
      exact Repaired.map_andThen x.put (step.take part) (takeAll rest) _ ih

-- The walk does not get to the place that a step is about.
def Unreached : Step α → Prop
  | entered p => p.focus = none
  | came v => v.focus = none

theorem unreached_within (p : Passage α) (step : Step β) : (step.within p none).Unreached := by
  cases step <;> rfl

theorem take_of_unreached {step : Step α} (hstep : step.Unreached) (copy : α) :
    step.take copy = ⟨copy, step.visit?.toList.map fun v => v.leaf.description⟩ := by
  cases step with
  | entered p =>
      have hnone : p.focus = none := hstep
      simp [take, Passage.enter, hnone, visit?]
  | came v =>
      have hnone : v.focus = none := hstep
      simp [take, Visit.treat, hnone, visit?]

theorem takeAll_of_unreached {steps : List (Step α)} (hsteps : ∀ step ∈ steps, step.Unreached)
    (copy : α) :
    takeAll steps copy = ⟨copy, (steps.filterMap visit?).map fun v => v.leaf.description⟩ := by
  induction steps with
  | nil => rfl
  | cons step rest ih =>
      obtain ⟨hstep, hrest⟩ := List.forall_mem_cons.mp hsteps
      rw [takeAll, take_of_unreached hstep, Repaired.andThen, ih hrest]
      cases step <;> rfl

end Step

mutual

theorem Assertion.visits_descriptions : ∀ (a : Assertion α) (copy : Option α),
    (a.visits copy).map (fun v => v.leaf.description) = a.leafDescriptions
  | .leaf l, copy => rfl
  | .all members, copy => by
      rw [Assertion.leafDescriptions, ← members.visits_descriptions copy]
      rfl
  | .shared inner, copy => by
      rw [Assertion.leafDescriptions, ← inner.visits_descriptions copy]
      rfl
  | .lift lens inner, copy => by
      rw [Assertion.visits_lift, List.map_map, Assertion.leafDescriptions]
      exact inner.visits_descriptions _

theorem Checklist.visits_descriptions : ∀ (list : Checklist α) (copy : Option α),
    (list.visits copy).map (fun v => v.leaf.description) = list.leafDescriptions
  | .nil, copy => rfl
  | .cons head rest, copy => by
      rw [Checklist.visits_cons, List.map_append, head.visits_descriptions,
        rest.visits_descriptions, Checklist.leafDescriptions]

end

-- A lift whose lens does not get to the part leads nowhere.
theorem Assertion.unreached_of_missed (p : Passage α) (inner : Assertion β) :
    ∀ step ∈ (inner.steps none).map (Step.within p none), step.Unreached := by
  intro step hstep
  obtain ⟨below, _, rfl⟩ := List.mem_map.mp hstep
  exact Step.unreached_within p below

mutual

theorem Assertion.repair_eq_takeAll : ∀ (a : Assertion α) (copy : α),
    a.repair copy = Step.takeAll (a.steps (some copy)) copy
  | .leaf l, copy => by
      rw [Assertion.repair, Assertion.steps, Step.takeAll, Step.take, Visit.treat]
      cases l.fixer <;> rfl
  | .all members, copy => by
      simpa only [Assertion.steps, Assertion.repair] using members.repair_eq_takeAll copy
  | .shared inner, copy => by
      simpa only [Assertion.steps, Assertion.repair] using inner.repair_eq_takeAll copy
  | .lift lens inner, copy => by
      let p : Passage α := ⟨lens, some (Focus.whole copy)⟩
      have henter : p.enter copy = (lens.access copy).whole := rfl
      rw [Assertion.repair, Assertion.steps, Option.bind_some]
      cases haccess : lens.access copy with
      | found x =>
          rw [haccess] at henter
          have hbelow := Step.takeAll_within p x (inner.steps (some x.part)) x.part
          simp only [Step.takeAll, Step.take, Access.focus?, Option.map_some, Repaired.andThen,
            List.nil_append, inner.repair_eq_takeAll x.part, ← hbelow]
          exact congrArg (Step.takeAll _) henter.symm
      | missed left =>
          rw [haccess] at henter
          have hbelow := Step.takeAll_of_unreached (inner.unreached_of_missed p) left
          rw [Step.visits_within, List.map_map] at hbelow
          simp only [Step.takeAll, Step.take, Access.focus?, Option.map_some, Option.map_none,
            Repaired.andThen, List.nil_append, ← inner.visits_descriptions none]
          exact hbelow.symm.trans (congrArg (Step.takeAll _) henter.symm)

theorem Checklist.repair_eq_takeAll : ∀ (list : Checklist α) (copy : α),
    list.repair copy = Step.takeAll (list.steps (some copy)) copy
  | .nil, copy => rfl
  | .cons head rest, copy => by
      simp only [Checklist.repair, Checklist.steps, Step.takeAll_append,
        head.repair_eq_takeAll, Repaired.andThen, rest.repair_eq_takeAll, Option.map_some]

end

end Eventually
