import Eventually.Proofs.Assertion.Steps
import Eventually.Requirement.Item

namespace Eventually

theorem Passage.shut_iff (lens : Lens α β) (copy : α) :
    Passage.Shut ⟨lens, some (Focus.whole copy)⟩ ↔ (lens.access copy).focus? = none := by
  simp only [Shut, Lens.access, Option.mem_def]
  cases lens.access? with
  | none => simp [Access.focus?]
  | some reach =>
      cases hreach : reach copy <;> simp [Focus.whole, Access.focus?, hreach]

theorem Passage.within_shut_iff (x : Focus α β) (p : Passage β) :
    (p.within (some x)).Shut ↔ p.Shut := by
  unfold Shut within
  cases p.focus <;> simp [Focus.within]

theorem Passage.exists_within_shut_iff (x : Focus α β) (lifts : List (Passage β)) :
    (∃ p ∈ lifts.map (Passage.within (some x)), p.Shut) ↔ ∃ p ∈ lifts, p.Shut := by
  induction lifts with
  | nil => simp
  | cons p rest ih =>
      simp only [List.map_cons, List.mem_cons, exists_eq_or_imp, within_shut_iff, ih]

mutual

-- The part is out of reach exactly when some lift around the leaf was shut.
theorem Assertion.focus_eq_none_iff : ∀ (a : Assertion α) (copy : α), ∀ v ∈ a.visits (some copy),
    v.focus = none ↔ ∃ p ∈ v.lifts, p.Shut
  | .leaf l, copy => by
      intro v hv
      obtain rfl := List.mem_singleton.mp hv
      simp
  | .all members, copy => members.focus_eq_none_iff copy
  | .shared inner, copy => inner.focus_eq_none_iff copy
  | .lift lens inner, copy => by
      intro v hv
      rw [Assertion.visits_lift] at hv
      obtain ⟨w, hw, rfl⟩ := List.mem_map.mp hv
      have hshut := Passage.shut_iff lens copy
      simp only [Visit.within, List.mem_cons, exists_eq_or_imp, hshut, Option.bind_some,
        Option.map_some] at hw ⊢
      cases haccess : lens.access copy with
      | missed left => simp [Access.focus?]
      | found x =>
          rw [haccess] at hw
          have hiff := inner.focus_eq_none_iff x.part w hw
          simpa [Access.focus?, -List.mem_map] using
            hiff.trans (Passage.exists_within_shut_iff x w.lifts).symm

theorem Checklist.focus_eq_none_iff : ∀ (list : Checklist α) (copy : α),
    ∀ v ∈ list.visits (some copy), v.focus = none ↔ ∃ p ∈ v.lifts, p.Shut
  | .nil, _ => List.forall_mem_nil _
  | .cons head rest, copy => by
      rw [Checklist.visits_cons]
      exact List.forall_mem_append.mpr
        ⟨head.focus_eq_none_iff copy, rest.focus_eq_none_iff _⟩

end

mutual

-- The lifts around a leaf are lifts that the walk has entered on its way.
theorem Assertion.entered_before : ∀ (a : Assertion α) (copy : Option α), ∀ before v after,
    a.steps copy = before ++ .came v :: after → ∀ p ∈ v.lifts, .entered p ∈ before
  | .leaf l, copy => by
      intro before v after hsplit
      have hv : Step.came v ∈ (Assertion.leaf l).steps copy := by simp [hsplit]
      obtain rfl := Step.came.inj (List.mem_singleton.mp hv)
      exact List.forall_mem_nil _
  | .all members, copy => members.entered_before copy
  | .shared inner, copy => inner.entered_before copy
  | .lift lens inner, copy => by
      intro before v after hsplit
      rw [Assertion.steps] at hsplit
      cases before with
      | nil => cases hsplit
      | cons first before =>
          obtain ⟨rfl, hbelow⟩ := List.cons.inj hsplit
          obtain ⟨ahead, behind, hinner, rfl, hbehind⟩ := List.map_eq_append_iff.mp hbelow
          obtain ⟨step, _, rfl, hstep, _⟩ := List.map_eq_cons_iff.mp hbehind
          cases step with
          | entered q => cases hstep
          | came w =>
              obtain rfl := Step.came.inj hstep
              refine List.forall_mem_cons.mpr ⟨List.mem_cons_self, fun p hp => ?_⟩
              obtain ⟨q, hq, rfl⟩ := List.mem_map.mp hp
              have hentered := inner.entered_before _ ahead w _ hinner q hq
              exact List.mem_cons_of_mem _ (List.mem_map.mpr ⟨_, hentered, rfl⟩)

theorem Checklist.entered_before : ∀ (list : Checklist α) (copy : Option α), ∀ before v after,
    list.steps copy = before ++ .came v :: after → ∀ p ∈ v.lifts, .entered p ∈ before
  | .nil, copy => by
      intro before v after hsplit
      cases before <;> cases hsplit
  | .cons head rest, copy => by
      intro before v after hsplit p hp
      rw [Checklist.steps] at hsplit
      rcases List.append_eq_append_iff.mp hsplit with ⟨ahead, rfl, hrest⟩ | ⟨behind, hhead, hcons⟩
      · exact List.mem_append_right _ (rest.entered_before _ ahead v after hrest p hp)
      · cases behind with
        | nil =>
            have hrest := rest.entered_before _ [] v after hcons.symm p hp
            cases hrest
        | cons step behind =>
            obtain ⟨rfl, -⟩ := List.cons.inj hcons
            exact head.entered_before copy before v behind hhead p hp

end

-- The place of a step is a part of the copy as it is then.
def Step.On : Step α → α → Prop
  | entered p, copy => ∀ x ∈ p.focus, x.put x.part = copy
  | came v, copy => ∀ x ∈ v.focus, x.put x.part = copy

def Step.OnCopy : List (Step α) → α → Prop
  | [], _ => True
  | step :: rest, copy => step.On copy ∧ OnCopy rest (step.take copy).object

theorem Step.onCopy_append (first second : List (Step α)) (copy : α) :
    OnCopy (first ++ second) copy ↔
      OnCopy first copy ∧ OnCopy second (takeAll first copy).object := by
  induction first generalizing copy with
  | nil => simp [OnCopy, takeAll]
  | cons step rest ih =>
      simp only [List.cons_append, OnCopy, takeAll, Repaired.andThen, ih, and_assoc]

theorem Step.On.within {step : Step β} {part : β} (hstep : step.On part) (p : Passage α)
    (x : Focus α β) : (step.within p (some x)).On (x.put part) := by
  cases step with
  | entered q =>
      intro y hy
      obtain ⟨z, hz, rfl⟩ := Option.map_eq_some_iff.mp hy
      exact congrArg x.put (hstep z hz)
  | came v =>
      intro y hy
      obtain ⟨z, hz, rfl⟩ := Option.map_eq_some_iff.mp hy
      exact congrArg x.put (hstep z hz)

theorem Step.OnCopy.within {steps : List (Step β)} {part : β} (hsteps : OnCopy steps part)
    (p : Passage α) (x : Focus α β) :
    OnCopy (steps.map (Step.within p (some x))) (x.put part) := by
  induction steps generalizing part with
  | nil => trivial
  | cons step rest ih =>
      obtain ⟨hstep, hrest⟩ := hsteps
      refine ⟨hstep.within p x, ?_⟩
      rw [take_within]
      exact ih hrest

theorem Step.onCopy_of_unreached {steps : List (Step α)} (hsteps : ∀ step ∈ steps, step.Unreached)
    (copy : α) : OnCopy steps copy := by
  induction steps with
  | nil => trivial
  | cons step rest ih =>
      obtain ⟨hstep, hrest⟩ := List.forall_mem_cons.mp hsteps
      constructor
      · cases step with
        | entered p =>
            have hnone : p.focus = none := hstep
            simp [On, hnone]
        | came v =>
            have hnone : v.focus = none := hstep
            simp [On, hnone]
      · rw [take_of_unreached hstep]
        exact ih hrest

mutual

theorem Assertion.steps_onCopy : ∀ (a : Assertion α) (copy : α),
    Step.OnCopy (a.steps (some copy)) copy
  | .leaf l, copy => ⟨fun x hx => by obtain rfl := Option.some.inj hx; rfl, trivial⟩
  | .all members, copy => members.steps_onCopy copy
  | .shared inner, copy => inner.steps_onCopy copy
  | .lift lens inner, copy => by
      refine ⟨fun x hx => by obtain rfl := Option.some.inj hx; rfl, ?_⟩
      let p : Passage α := ⟨lens, some (Focus.whole copy)⟩
      have henter : p.enter copy = (lens.access copy).whole := rfl
      simp only [Option.map_some, Option.bind_some, Step.take]
      change Step.OnCopy (_) (p.enter copy)
      rw [henter]
      cases lens.access copy with
      | found x => exact (inner.steps_onCopy x.part).within p x
      | missed left => exact Step.onCopy_of_unreached (inner.unreached_of_missed p) left

theorem Checklist.steps_onCopy : ∀ (list : Checklist α) (copy : α),
    Step.OnCopy (list.steps (some copy)) copy
  | .nil, _ => trivial
  | .cons head rest, copy =>
      (Step.onCopy_append ..).mpr ⟨head.steps_onCopy copy, rest.steps_onCopy _⟩

end

namespace Step

theorem unexplained_sublist (steps : List (Step α)) (copy : α) :
    (takeAll steps copy).unexplained.Sublist
      ((steps.filterMap visit?).map fun v => v.leaf.description) := by
  induction steps generalizing copy with
  | nil => exact List.Sublist.refl []
  | cons step rest ih =>
      cases step with
      | entered p => exact ih _
      | came v =>
          have hone : (v.treat copy).unexplained.Sublist [v.leaf.description] := by
            unfold Visit.treat
            split <;> simp
          exact hone.append (ih _)

-- A leaf that cannot be fixed leaves the copy as it finds it.
theorem treat_of_unfixable {v : Visit α} (hv : v.focus = none ∨ v.leaf.fixer = none) (copy : α) :
    v.treat copy = ⟨copy, [v.leaf.description]⟩ := by
  unfold Visit.treat
  rcases hv with hv | hv <;> rw [hv]
  cases v.focus <;> rfl

theorem unexplained_of_unfixable {steps : List (Step α)}
    (hsteps : ∀ v ∈ steps.filterMap visit?, v.focus = none ∨ v.leaf.fixer = none) (copy : α) :
    (takeAll steps copy).unexplained =
      (steps.filterMap visit?).map fun v => v.leaf.description := by
  induction steps generalizing copy with
  | nil => rfl
  | cons step rest ih =>
      cases step with
      | entered p => exact ih hsteps _
      | came v =>
          obtain ⟨hv, hrest⟩ := List.forall_mem_cons.mp hsteps
          rw [takeAll, take, treat_of_unfixable hv, Repaired.andThen, ih hrest]
          rfl

-- Lenses that only project do not change the copy either.
theorem object_of_unfixable {steps : List (Step α)} {copy : α} (honcopy : OnCopy steps copy)
    (hsteps : ∀ v ∈ steps.filterMap visit?, v.focus = none ∨ v.leaf.fixer = none)
    (hprojects : ∀ p, .entered p ∈ steps → p.lens.Projects) :
    (takeAll steps copy).object = copy := by
  induction steps with
  | nil => rfl
  | cons step rest ih =>
      obtain ⟨hstep, hrest⟩ := honcopy
      have hprojects' : ∀ p, .entered p ∈ rest → p.lens.Projects :=
        fun p hp => hprojects p (List.mem_cons_of_mem _ hp)
      cases step with
      | entered p =>
          have hsame : p.enter copy = copy := by
            unfold Passage.enter
            cases hfocus : p.focus with
            | none => rfl
            | some x =>
                have hwhole := hprojects p List.mem_cons_self x.part
                simp only [hwhole]
                exact hstep x hfocus
          have htake : (takeAll (.entered p :: rest) copy).object =
              (takeAll rest (p.enter copy)).object := rfl
          have hrest' : OnCopy rest (p.enter copy) := hrest
          rw [hsame] at hrest' htake
          exact htake.trans (ih hrest' hsteps hprojects')
      | came v =>
          obtain ⟨hv, hvisits⟩ := List.forall_mem_cons.mp hsteps
          have hrest' : OnCopy rest (v.treat copy).object := hrest
          rw [treat_of_unfixable hv] at hrest'
          rw [takeAll, take, treat_of_unfixable hv]
          exact ih hrest' hvisits hprojects'

end Step

theorem Visit.unfixable_iff {v : Visit α} (hv : v.focus = none ↔ ∃ p ∈ v.lifts, p.Shut) :
    v.Unfixable ↔ v.focus = none ∨ v.leaf.fixer = none := by
  rw [Unfixable, ← hv, or_comm]

-- What a repair of an object does with the leaves of a list, one after the other.
structure Checklist.Walked (list : Checklist α) (obj : α) (steps : List (Step α)) : Prop where
  repair_eq : list.repair obj = Step.takeAll steps obj
  inOrder : (steps.filterMap Step.visit?).map (fun v => v.leaf.description) = list.leafDescriptions
  -- The lifts around a leaf have been entered before, each on the copy as it was then, and what is
  -- done on entering is what the lens does in reaching for its part.
  around : ∀ before v after, steps = before ++ .came v :: after →
    ∀ p ∈ v.lifts, .entered p ∈ before
  entered : ∀ before p after, steps = before ++ .entered p :: after → ∃ copy listed,
    Step.takeAll before obj = ⟨copy, listed⟩ ∧ (∀ x ∈ p.focus, x.put x.part = copy) ∧
      Step.takeAll (before ++ [.entered p]) obj = ⟨p.enter copy, listed⟩
  -- Each leaf is treated in one of two ways, and in which is told by its fixer and its lifts.
  treated : ∀ before v after, steps = before ++ .came v :: after → ∃ copy listed,
    Step.takeAll before obj = ⟨copy, listed⟩ ∧
      (v.Unfixable ∧
          Step.takeAll (before ++ [.came v]) obj = ⟨copy, listed ++ [v.leaf.description]⟩ ∨
        ¬v.Unfixable ∧ ∃ x ∈ v.focus, ∃ fix ∈ v.leaf.fixer, x.put x.part = copy ∧
          Step.takeAll (before ++ [.came v]) obj = ⟨x.put (fix x.part), listed⟩)
  sublist : (list.repair obj).unexplained.Sublist list.leafDescriptions
  untouched : (∀ v ∈ steps.filterMap Step.visit?, v.Unfixable) →
    (list.repair obj).unexplained = list.leafDescriptions ∧
      ((∀ p, .entered p ∈ steps → p.lens.Projects) → (list.repair obj).object = obj)

-- No leaf is dropped on the way: it is fixed where the walk has come to, or it is listed.
theorem Checklist.repair_walks (list : Checklist α) (obj : α) :
    list.Walked obj (list.steps (some obj)) := by
  have hunfixable : ∀ v ∈ list.visits (some obj),
      v.Unfixable ↔ v.focus = none ∨ v.leaf.fixer = none :=
    fun v hv => Visit.unfixable_iff (list.focus_eq_none_iff obj v hv)
  have honcopy := list.steps_onCopy obj
  constructor
  case repair_eq => exact list.repair_eq_takeAll obj
  case inOrder => exact list.visits_descriptions (some obj)
  case around => exact list.entered_before (some obj)
  case entered =>
    intro before p after hsplit
    rw [hsplit, Step.onCopy_append] at honcopy
    refine ⟨_, _, rfl, honcopy.2.1, ?_⟩
    simp [Step.takeAll_concat, Repaired.andThen, Step.take]
  case treated =>
    intro before v after hsplit
    refine ⟨_, _, rfl, ?_⟩
    have hmem : v ∈ list.visits (some obj) := by
      rw [visits, hsplit]
      simp [Step.visit?]
    have hiff := hunfixable v hmem
    rw [hsplit, Step.onCopy_append] at honcopy
    have htake : (Step.came v).take = v.treat := rfl
    rw [Step.takeAll_concat, htake]
    by_cases hv : v.Unfixable
    · refine .inl ⟨hv, ?_⟩
      rw [Repaired.andThen, Step.treat_of_unfixable (hiff.mp hv)]
    · refine .inr ⟨hv, ?_⟩
      rw [hiff, not_or] at hv
      obtain ⟨x, hx⟩ := Option.ne_none_iff_exists'.mp hv.1
      obtain ⟨fix, hfix⟩ := Option.ne_none_iff_exists'.mp hv.2
      refine ⟨x, hx, fix, hfix, honcopy.2.1 x hx, ?_⟩
      simp [Repaired.andThen, Visit.treat, hx, hfix]
  case sublist =>
    rw [list.repair_eq_takeAll, ← list.visits_descriptions (some obj)]
    exact Step.unexplained_sublist _ obj
  case untouched =>
    intro hall
    have hlost := fun v hv => (hunfixable v hv).mp (hall v hv)
    rw [list.repair_eq_takeAll, ← list.visits_descriptions (some obj)]
    exact ⟨Step.unexplained_of_unfixable hlost obj, Step.object_of_unfixable honcopy hlost⟩

namespace Checklist

-- A lift that one fixer opens and the next one, below it, shuts for the lift behind.
def whenTwo (inner : Assertion Item) : Assertion Item :=
  .lift (Lens.guarded "Item" (fun _ => true) (some fun item => item.value == 2)) inner

def opening : Checklist Item :=
  .ofList [.leaf (ItemRequirement.value 2).leaf,
    whenTwo (.all (.ofList [.leaf (ItemRequirement.value 3).leaf,
      .leaf (ItemRequirement.name "counter").leaf])),
    whenTwo (.leaf (ItemRequirement.value 5).leaf)]

theorem repair_walks_of_opening :
    opening.Walked ⟨"toolchain", "gauge", 0⟩ (opening.steps (some ⟨"toolchain", "gauge", 0⟩)) ∧
      (opening.repair ⟨"toolchain", "gauge", 0⟩).object = ⟨"toolchain", "gauge", 3⟩ ∧
      (opening.repair ⟨"toolchain", "gauge", 0⟩).unexplained = ["NameIs", "ValueIs"] :=
  ⟨opening.repair_walks _, by decide, by decide⟩

-- A lift that is open for the whole list below it, although the first fixer there would shut it.
def whenZero : Lens Item Item :=
  .guarded "Item" (fun _ => true) (some fun item => item.value == 0)

def countingUp : Checklist Item :=
  .ofList [.lift whenZero (.all (.ofList [.leaf (ItemRequirement.value 1).leaf,
    .leaf (ItemRequirement.value 2).leaf]))]

-- A lens that makes up a part where there is none.
def filledIn : Lens (Option String) String where
  whole := "Option<String>"
  part := "String"
  get? text := text
  access? := some fun text => .found ⟨text.getD "", some⟩

def signed : Checklist (Option String) :=
  .ofList [.lift filledIn (.leaf ⟨"signed", fun text => if text.isEmpty then [.failure "unsigned"]
    else [], none, none, none⟩)]

-- A leaf is fixed although the lens around it does not reach its part in the copy as the fixer
-- before has left it, and an object changes although no leaf can be fixed.
theorem walk_is_not_plain :
    (countingUp.repair ⟨"toolchain", "counter", 0⟩ = ⟨⟨"toolchain", "counter", 2⟩, []⟩ ∧
        (Assertion.leaf (ItemRequirement.value 1).leaf).repair ⟨"toolchain", "counter", 0⟩ =
          ⟨⟨"toolchain", "counter", 1⟩, []⟩ ∧
        (whenZero.access ⟨"toolchain", "counter", 1⟩).focus?.isNone) ∧
      (∀ v ∈ signed.visits (some none), v.Unfixable) ∧
      signed.repair none = ⟨some "", ["signed"]⟩ := by
  refine ⟨by decide, fun v hv => ?_, by decide⟩
  obtain rfl := List.mem_singleton.mp hv
  exact .inl rfl

end Checklist

end Eventually
