import Eventually.Diff.Path
import Eventually.Proofs.Diff.Report

namespace Eventually

namespace Json

-- Both documents have something at a place, and it is compared part by part.
def AlikeAt (actual expected : Json) (position : Diff.Position) : Prop :=
  ∃ part other, actual.at? position = some part ∧ expected.at? position = some other ∧
    part.Alike other

theorem alike_of_parts {actual expected part other : Json} {step : Diff.Step}
    (hpart : actual.part? step = some part) (hother : expected.part? step = some other) :
    actual.Alike expected := by
  cases step <;> cases actual <;> simp only [part?, reduceCtorEq] at hpart <;>
    cases expected <;> simp only [part?, reduceCtorEq] at hother <;> constructor

theorem at?_cons {document part : Json} {step : Diff.Step} (hpart : document.part? step = some part)
    (rest : Diff.Position) : document.at? (step :: rest) = part.at? rest := by
  rw [at?, hpart, Option.bind_some]

theorem exists_part_of_at? {document value : Json} {step : Diff.Step} {rest : Diff.Position}
    (hat : document.at? (step :: rest) = some value) :
    ∃ part, document.part? step = some part ∧ part.at? rest = some value :=
  Option.bind_eq_some_iff.mp hat

theorem Alike.symm {actual expected : Json} (halike : actual.Alike expected) :
    expected.Alike actual := by
  cases halike <;> constructor

theorem Alike.alikeAt_nil {actual expected : Json} (halike : actual.Alike expected) :
    actual.AlikeAt expected [] :=
  ⟨actual, expected, rfl, rfl, halike⟩

theorem alikeAt_cons_iff {actual expected part other : Json} {step : Diff.Step}
    (hpart : actual.part? step = some part) (hother : expected.part? step = some other)
    (rest : Diff.Position) :
    actual.AlikeAt expected (step :: rest) ↔ part.AlikeAt other rest := by
  simp only [AlikeAt, at?_cons hpart, at?_cons hother]

theorem AlikeAt.exists_parts {actual expected : Json} {step : Diff.Step} {rest : Diff.Position}
    (halike : actual.AlikeAt expected (step :: rest)) :
    ∃ part other, actual.part? step = some part ∧ expected.part? step = some other ∧
      part.AlikeAt other rest := by
  obtain ⟨value, value', hvalue, hvalue', hkinds⟩ := halike
  obtain ⟨part, hpart, hat⟩ := exists_part_of_at? hvalue
  obtain ⟨other, hother, hat'⟩ := exists_part_of_at? hvalue'
  exact ⟨part, other, hpart, hother, value, value', hat, hat', hkinds⟩

-- Below the root there is something only in objects and arrays.
theorem AlikeAt.alike {actual expected : Json} {position : Diff.Position}
    (halike : actual.AlikeAt expected position) : actual.Alike expected := by
  cases position with
  | nil =>
      obtain ⟨value, other, hvalue, hother, hkinds⟩ := halike
      cases hvalue
      cases hother
      exact hkinds
  | cons step rest =>
      obtain ⟨part, other, hpart, hother, _⟩ := halike.exists_parts
      exact alike_of_parts hpart hother

end Json

namespace Diff

-- A field or an item that only the first of two documents has, in an object or an array of both.
inductive OnlyIn (first second : Json) : Position → Json → Prop
  | intro (parent : Position) (step : Step) (hparent : first.AlikeAt second parent)
      (hvalue : first.at? (parent ++ [step]) = some value)
      (hnone : second.at? (parent ++ [step]) = none) : OnlyIn first second (parent ++ [step]) value

namespace OnlyIn

variable {first second : Json}

theorem here (halike : first.Alike second) {step : Step} (hvalue : first.part? step = some value)
    (hnone : second.part? step = none) : OnlyIn first second [step] value := by
  refine .intro [] step halike.alikeAt_nil ?_ ?_
  · rw [List.nil_append, Json.at?_cons hvalue, Json.at?]
  · rw [List.nil_append, Json.at?, hnone, Option.bind_none]

theorem behind {part other : Json} {step : Step} (hpart : first.part? step = some part)
    (hother : second.part? step = some other) {rest : Position}
    (honly : OnlyIn part other rest value) : OnlyIn first second (step :: rest) value := by
  obtain ⟨parent, last, hparent, hvalue, hnone⟩ := honly
  rw [← List.cons_append]
  refine .intro _ last ((Json.alikeAt_cons_iff hpart hother parent).mpr hparent) ?_ ?_
  · rw [List.cons_append, Json.at?_cons hpart, hvalue]
  · rw [List.cons_append, Json.at?_cons hother, hnone]

-- It lies under a step from the root, or within parts of both documents.
theorem cases_step {position : Position} (honly : OnlyIn first second position value) :
    (∃ step, position = [step] ∧ first.part? step = some value ∧ second.part? step = none) ∨
      ∃ step rest part other, position = step :: rest ∧ first.part? step = some part ∧
        second.part? step = some other ∧ OnlyIn part other rest value := by
  obtain ⟨parent, last, hparent, hvalue, hnone⟩ := honly
  cases parent with
  | nil =>
      obtain ⟨part, hpart, hat⟩ := Json.exists_part_of_at? hvalue
      cases hat
      have hmissing : second.part? last = none := by simpa [Json.at?] using hnone
      exact .inl ⟨last, rfl, hpart, hmissing⟩
  | cons step rest =>
      obtain ⟨part, other, hpart, hother, hrest⟩ := hparent.exists_parts
      rw [List.cons_append, Json.at?_cons hpart] at hvalue
      rw [List.cons_append, Json.at?_cons hother] at hnone
      exact .inr ⟨step, _, part, other, rfl, hpart, hother, .intro rest last hrest hvalue hnone⟩

theorem alike {position : Position} (honly : OnlyIn first second position value) :
    first.Alike second := by
  obtain ⟨_, _, hparent, _, _⟩ := honly
  exact hparent.alike

end OnlyIn

-- What two documents differ in, each time at the place where their comparison ends: values of which
-- one has taken the place of the other, or a field or an item that only one of the documents has.
inductive Difference (actual expected : Json) : Change Position → Prop
  | changed
      (hfronts : ∀ front, front <+: position → front ≠ position → actual.AlikeAt expected front)
      (hvalue : actual.at? position = some value) (hother : expected.at? position = some other)
      (hends : ¬value.Alike other) (hdiffer : (value == other) = false) :
      Difference actual expected (.changed position value other)
  | removed (honly : OnlyIn actual expected position value) :
      Difference actual expected (.removed position value)
  | added (honly : OnlyIn expected actual position value) :
      Difference actual expected (.added position value)

-- The differences of two parts that stand under the same step, each of which may be missing.
inductive PartDifference : Option Json → Option Json → Change Position → Prop
  | both (hdifference : Difference part other c) : PartDifference (some part) (some other) c
  | removed (part : Json) : PartDifference (some part) none (.removed [] part)
  | added (other : Json) : PartDifference none (some other) (.added [] other)

section

variable {actual expected : Json}

-- Whatever lies below the root lies below two objects or two arrays.
theorem difference_iff_of_not_alike (halike : ¬actual.Alike expected) (c : Change Position) :
    Difference actual expected c ↔
      (actual == expected) = false ∧ c = .changed [] actual expected := by
  constructor
  · intro hdifference
    cases hdifference with
    | @changed position value other hfronts hvalue hother _ hdiffer =>
        cases position with
        | nil =>
            cases hvalue
            cases hother
            exact ⟨hdiffer, rfl⟩
        | cons step rest =>
            exact absurd (hfronts [] List.nil_prefix (List.cons_ne_nil step rest).symm).alike halike
    | removed honly => exact absurd honly.alike halike
    | added honly => exact absurd honly.alike.symm halike
  · rintro ⟨hdiffer, rfl⟩
    refine .changed (fun front hfront hne => ?_) rfl rfl halike hdiffer
    exact absurd (List.prefix_nil.mp hfront) hne

theorem Difference.behind {part other : Json} {step : Step}
    (hpart : actual.part? step = some part) (hother : expected.part? step = some other)
    {c : Change Position} (hdifference : Difference part other c) :
    Difference actual expected (c.map (step :: ·)) := by
  have halike := Json.alike_of_parts hpart hother
  cases hdifference with
  | changed hfronts hvalue hvalue' hends hdiffer =>
      refine .changed (fun front hfront hne => ?_) ?_ ?_ hends hdiffer
      · cases front with
        | nil => exact halike.alikeAt_nil
        | cons first rest =>
            obtain ⟨rfl, hrest⟩ := List.cons_prefix_cons.mp hfront
            exact (Json.alikeAt_cons_iff hpart hother rest).mpr
              (hfronts rest hrest fun heq => hne (congrArg _ heq))
      · rw [Json.at?_cons hpart, hvalue]
      · rw [Json.at?_cons hother, hvalue']
  | removed honly => exact .removed (honly.behind hpart hother)
  | added honly => exact .added (honly.behind hother hpart)

-- What documents of one kind differ in lies under a step, and the two parts there differ in it.
theorem Difference.exists_step (halike : actual.Alike expected) {c : Change Position}
    (hdifference : Difference actual expected c) : ∃ step d, c = d.map (step :: ·) ∧
      PartDifference (actual.part? step) (expected.part? step) d := by
  cases hdifference with
  | @changed position value other hfronts hvalue hother hends hdiffer =>
      cases position with
      | nil =>
          cases hvalue
          cases hother
          exact absurd halike hends
      | cons step rest =>
          obtain ⟨part, hpart, hat⟩ := Json.exists_part_of_at? hvalue
          obtain ⟨part', hpart', hat'⟩ := Json.exists_part_of_at? hother
          refine ⟨step, .changed rest value other, rfl, ?_⟩
          rw [hpart, hpart']
          refine .both (.changed (fun front hfront hne => ?_) hat hat' hends hdiffer)
          refine (Json.alikeAt_cons_iff hpart hpart' front).mp (hfronts (step :: front) ?_ ?_)
          · exact List.cons_prefix_cons.mpr ⟨rfl, hfront⟩
          · exact fun heq => hne (List.cons.inj heq).2
  | @removed position value honly =>
      obtain ⟨step, rfl, hpart, hnone⟩ | ⟨step, rest, part, other, rfl, hpart, hother, hrest⟩ :=
        honly.cases_step
      · refine ⟨step, .removed [] value, rfl, ?_⟩
        rw [hpart, hnone]
        exact .removed value
      · refine ⟨step, .removed rest value, rfl, ?_⟩
        rw [hpart, hother]
        exact .both (.removed hrest)
  | @added position value honly =>
      obtain ⟨step, rfl, hpart, hnone⟩ | ⟨step, rest, part, other, rfl, hpart, hother, hrest⟩ :=
        honly.cases_step
      · refine ⟨step, .added [] value, rfl, ?_⟩
        rw [hpart, hnone]
        exact .added value
      · refine ⟨step, .added rest value, rfl, ?_⟩
        rw [hpart, hother]
        exact .both (.added hrest)

theorem Difference.of_step (halike : actual.Alike expected) {step : Step} {d : Change Position}
    (hdifference : PartDifference (actual.part? step) (expected.part? step) d) :
    Difference actual expected (d.map (step :: ·)) := by
  generalize hpart : actual.part? step = part at hdifference
  generalize hother : expected.part? step = other at hdifference
  cases hdifference with
  | both hboth => exact hboth.behind hpart hother
  | removed part => exact .removed (.here halike hpart hother)
  | added other => exact .added (.here halike.symm hother hpart)

theorem mem_below_iff {step : Step} {cs : List (Change Position)} {d : Change Position} :
    d ∈ below step cs ↔ d.map (step :: ·) ∈ cs := by
  constructor
  · intro hd
    obtain ⟨c, hc, rfl⟩ := List.mem_map.mp hd
    obtain ⟨hmem, hhead⟩ := List.mem_filter.mp hc
    obtain ⟨rest, hplace⟩ := List.head?_eq_some_iff.mp (of_decide_eq_true hhead)
    rwa [Change.map_map, Change.map_eq_self (by simp [hplace])]
  · intro hmem
    have hback : (d.map (step :: ·)).map List.tail = d := (Change.map_map ..).trans d.map_id
    have hplace : (d.map (step :: ·)).place = step :: d.place := Change.place_map ..
    exact hback ▸ mem_below hmem hplace

theorem mem_partChanges_iff {part other : Option Json} {d : Change Position}
    (hboth : ∀ p ∈ part, ∀ o ∈ other, d ∈ changes p o ↔ Difference p o d) :
    d ∈ partChanges part other ↔ PartDifference part other d := by
  cases part with
  | none =>
      cases other with
      | none => exact iff_of_false List.not_mem_nil fun hdifference => nomatch hdifference
      | some other =>
          rw [partChanges, List.mem_singleton]
          exact ⟨fun heq => heq ▸ .added other, fun hdifference => by cases hdifference; rfl⟩
  | some part =>
      cases other with
      | none =>
          rw [partChanges, List.mem_singleton]
          exact ⟨fun heq => heq ▸ .removed part, fun hdifference => by cases hdifference; rfl⟩
      | some other =>
          rw [partChanges, hboth part rfl other rfl]
          exact ⟨.both, fun hdifference => by cases hdifference; assumption⟩

theorem mem_changes_iff {actual expected : Json} (hactual : actual.Ordered)
    (hexpected : expected.Ordered) (c : Change Position) :
    c ∈ changes actual expected ↔ Difference actual expected c := by
  induction actual using Json.induct generalizing expected c with
  | whole actual ih =>
      by_cases halike : actual.Alike expected
      · have hparts (step : Step) (d : Change Position) :
            d.map (step :: ·) ∈ changes actual expected ↔
              PartDifference (actual.part? step) (expected.part? step) d := by
          rw [← mem_below_iff, below_changes halike hactual hexpected]
          refine mem_partChanges_iff fun part hpart other hother => ?_
          exact ih step part hpart (hactual.part hpart) (hexpected.part hother) d
        constructor
        · intro hc
          obtain ⟨step, rest, hplace⟩ := List.exists_cons_of_ne_nil (place_ne_nil halike c hc)
          have hc' : (c.map List.tail).map (step :: ·) = c := by
            rw [Change.map_map, Change.map_eq_self (by simp [hplace])]
          have hpart := (hparts step (c.map List.tail)).mp (by rwa [hc'])
          have hdifference := Difference.of_step halike hpart
          rwa [hc'] at hdifference
        · intro hdifference
          obtain ⟨step, d, rfl, hpart⟩ := hdifference.exists_step halike
          exact (hparts step d).mpr hpart
      · rw [changes_of_not_alike halike, difference_iff_of_not_alike halike]
        cases hsame : actual == expected with
        | true => simp
        | false => simp

end

-- Which of two parts of a document comes first when it is compared with another: fields that the
-- document has before others, both by their keys, and items by their index.
inductive StepBefore (actual : Json) : Step → Step → Prop
  | fields (hfirst : (actual.part? (.key first)).isSome)
      (hsecond : (actual.part? (.key second)).isSome) (hlt : first < second) :
      StepBefore actual (.key first) (.key second)
  | newField (hfirst : (actual.part? (.key first)).isSome)
      (hsecond : actual.part? (.key second) = none) :
      StepBefore actual (.key first) (.key second)
  | newFields (hfirst : actual.part? (.key first) = none)
      (hsecond : actual.part? (.key second) = none) (hlt : first < second) :
      StepBefore actual (.key first) (.key second)
  | items (hlt : first < second) : StepBefore actual (.index first) (.index second)

-- Which of two places comes first: where they part company the steps decide.
inductive Precedes : Json → Position → Position → Prop
  | parted (hstep : StepBefore actual step other) : Precedes actual (step :: rest) (other :: rest')
  | within (hpart : actual.part? step = some part) (hrest : Precedes part rest rest') :
      Precedes actual (step :: rest) (step :: rest')

theorem StepBefore.asymm {actual : Json} {step other : Step}
    (hbefore : StepBefore actual step other) : ¬StepBefore actual other step := by
  intro hafter
  cases hbefore with
  | fields hfirst hsecond hlt =>
      cases hafter with
      | fields _ _ hgt => exact String.lt_asymm hlt hgt
      | newField _ hnone => rw [hnone] at hfirst; cases hfirst
      | newFields hnone _ _ => rw [hnone] at hsecond; cases hsecond
  | newField hfirst hnone =>
      cases hafter with
      | fields hsome _ _ => rw [hnone] at hsome; cases hsome
      | newField hsome _ => rw [hnone] at hsome; cases hsome
      | newFields _ hnone' _ => rw [hnone'] at hfirst; cases hfirst
  | newFields hfirst hsecond hlt =>
      cases hafter with
      | fields hsome _ _ => rw [hsecond] at hsome; cases hsome
      | newField hsome _ => rw [hsecond] at hsome; cases hsome
      | newFields _ _ hgt => exact String.lt_asymm hlt hgt
  | items hlt =>
      cases hafter with
      | items hgt => exact Nat.lt_asymm hlt hgt

theorem Precedes.asymm {actual : Json} {position other : Position}
    (hprecedes : Precedes actual position other) : ¬Precedes actual other position := by
  induction hprecedes with
  | parted hstep =>
      intro hafter
      cases hafter with
      | parted hback => exact hstep.asymm hback
      | within => exact hstep.asymm hstep
  | within hpart hrest ih =>
      intro hafter
      cases hafter with
      | parted hback => exact hback.asymm hback
      | within hpart' hback =>
          rw [hpart] at hpart'
          cases hpart'
          exact ih hback

-- The changes lie behind steps that come in order, several of them behind one step.
def HeadsInOrder (actual : Json) (c d : Change Position) : Prop :=
  ∃ step other, c.place.head? = some step ∧ d.place.head? = some other ∧
    (step = other ∨ StepBefore actual step other)

section

variable {actual : Json}

theorem headsInOrder_under_append {step : Step} (group : List (Change Position))
    {later : List (Change Position)} (hlater : later.Pairwise (HeadsInOrder actual))
    (hbefore : ∀ d ∈ later, ∃ other, d.place.head? = some other ∧ StepBefore actual step other) :
    (under step group ++ later).Pairwise (HeadsInOrder actual) := by
  refine List.pairwise_append.mpr ⟨?_, hlater, fun c hc d hd => ?_⟩
  · refine List.pairwise_of_forall_mem_list fun c hc d hd => ?_
    exact ⟨step, step, head?_of_mem_under hc, head?_of_mem_under hd, .inl rfl⟩
  · obtain ⟨other, hother, hstep⟩ := hbefore d hd
    exact ⟨step, other, head?_of_mem_under hc, hother, .inr hstep⟩

theorem fieldChanges_headsInOrder (expected : List (String × Json)) {fields : List (String × Json)}
    (hordered : Entries.Ordered fields)
    (hfields : ∀ field ∈ fields, (actual.part? (.key field.1)).isSome) :
    (fieldChanges fields expected).Pairwise (HeadsInOrder actual) := by
  induction fields with
  | nil => exact List.Pairwise.nil
  | cons head rest ih =>
      obtain ⟨hhead, hrest⟩ := List.pairwise_cons.mp hordered
      obtain ⟨hpart, hparts⟩ := List.forall_mem_cons.mp hfields
      rw [fieldChanges_cons]
      refine headsInOrder_under_append _ (ih hrest hparts) fun d hd => ?_
      obtain ⟨field, hfield, hd⟩ := head?_of_mem_fieldChanges _ _ d hd
      exact ⟨.key field.1, hd, .fields hpart (hparts field hfield) (hhead field hfield)⟩

theorem itemChanges_headsInOrder (start : Nat) (items expected : List Json) :
    (itemChanges start items expected).Pairwise (HeadsInOrder actual) := by
  refine itemChanges_induct (motive := fun _ cs => cs.Pairwise (HeadsInOrder actual))
    (fun _ => List.Pairwise.nil) (fun start _ _ _ _ ih => ?_) start items expected
  refine headsInOrder_under_append _ ih fun d hd => ?_
  obtain ⟨index, hle, hhead⟩ := head?_of_mem_itemChanges _ _ _ d hd
  exact ⟨.index index, hhead, .items hle⟩

theorem objects_headsInOrder {fields expected : List (String × Json)}
    (hordered : Entries.Ordered fields) (hexpected : Entries.Ordered expected) :
    (changes (.object fields) (.object expected)).Pairwise (HeadsInOrder (.object fields)) := by
  have hfields : ∀ field ∈ fields, ((Json.object fields).part? (.key field.1)).isSome := by
    intro field hfield
    rw [Option.isSome_iff_ne_none]
    exact fun hnone => (Entries.find?_eq_none_iff ..).mp hnone field hfield rfl
  have hnew : ∀ field ∈ expected.filter fun field => (Entries.find? field.1 fields).isNone,
      (Json.object fields).part? (.key field.1) = none := by
    intro field hfield
    exact Option.isNone_iff_eq_none.mp (List.mem_filter.mp hfield).2
  rw [changes]
  refine List.pairwise_append.mpr ⟨fieldChanges_headsInOrder expected hordered hfields, ?_, ?_⟩
  · refine List.pairwise_map.mpr ((List.Pairwise.filter _ hexpected).imp_of_mem ?_)
    intro field other hfield hother hlt
    exact ⟨_, _, rfl, rfl, .inr (.newFields (hnew field hfield) (hnew other hother) hlt)⟩
  · intro c hc d hd
    obtain ⟨field, hfield, hhead⟩ := head?_of_mem_fieldChanges _ _ c hc
    obtain ⟨other, hother, rfl⟩ := List.mem_map.mp hd
    exact ⟨_, _, hhead, rfl, .inr (.newField (hfields field hfield) (hnew other hother))⟩

-- Changes behind steps that come in order are in order if those behind each step are.
theorem pairwise_precedes {cs : List (Change Position)} (hheads : cs.Pairwise (HeadsInOrder actual))
    (hbelow : ∀ step, (below step cs).Pairwise fun c d =>
      ∃ part, actual.part? step = some part ∧ Precedes part c.place d.place) :
    cs.Pairwise fun c d => Precedes actual c.place d.place := by
  induction cs with
  | nil => exact List.Pairwise.nil
  | cons c rest ih =>
      obtain ⟨hhead, hrest⟩ := List.pairwise_cons.mp hheads
      have hsplit (step : Step) : below step (c :: rest) = below step [c] ++ below step rest :=
        below_append step [c] rest
      have hapart (step : Step) := List.pairwise_append.mp (hsplit step ▸ hbelow step)
      refine List.pairwise_cons.mpr ⟨fun d hd => ?_, ih hrest fun step => (hapart step).2.1⟩
      obtain ⟨step, other, hstep, hother, hsteps⟩ := hhead d hd
      obtain ⟨front, hfront⟩ := List.head?_eq_some_iff.mp hstep
      obtain ⟨back, hback⟩ := List.head?_eq_some_iff.mp hother
      rw [hfront, hback]
      obtain rfl | hbefore := hsteps
      · have hfirst := mem_below (List.mem_singleton_self c) hfront
        have hsecond := mem_below hd hback
        obtain ⟨part, hpart, hprecedes⟩ := (hapart step).2.2 _ hfirst _ hsecond
        rw [Change.place_map, Change.place_map, hfront, hback] at hprecedes
        exact .within hpart hprecedes
      · exact .parted hbefore

end

theorem headsInOrder {actual expected : Json} (halike : actual.Alike expected)
    (hactual : actual.Ordered) (hexpected : expected.Ordered) :
    (changes actual expected).Pairwise (HeadsInOrder actual) := by
  cases halike with
  | objects => exact objects_headsInOrder hactual.1 hexpected.1
  | arrays => exact itemChanges_headsInOrder 0 _ _

theorem changes_inOrder {actual expected : Json} (hactual : actual.Ordered)
    (hexpected : expected.Ordered) :
    (changes actual expected).Pairwise fun c d => Precedes actual c.place d.place := by
  induction actual using Json.induct generalizing expected with
  | whole actual ih =>
      by_cases halike : actual.Alike expected
      · refine pairwise_precedes (headsInOrder halike hactual hexpected) fun step => ?_
        rw [below_changes halike hactual hexpected]
        cases hpart : actual.part? step with
        | none => cases expected.part? step <;> simp [partChanges]
        | some part =>
            cases hother : expected.part? step with
            | none => exact List.pairwise_singleton ..
            | some other =>
                have hinner := ih step part hpart (hactual.part hpart) (hexpected.part hother)
                exact hinner.imp fun hprecedes => ⟨part, rfl, hprecedes⟩
      · rw [changes_of_not_alike halike]
        split <;> simp

-- The differences of two documents, each of them once and in the order of a comparison that goes
-- down into the parts as it meets them.
structure Itemizes (actual expected : Json) (cs : List (Change Position)) : Prop where
  mem_iff : ∀ c, c ∈ cs ↔ Difference actual expected c
  places_nodup : (cs.map Change.place).Nodup
  inOrder : cs.Pairwise fun c d => Precedes actual c.place d.place

theorem Itemizes.unique {actual expected : Json} {cs ds : List (Change Position)}
    (hcs : Itemizes actual expected cs) (hds : Itemizes actual expected ds) : cs = ds := by
  have hperm : cs.Perm ds :=
    (List.perm_ext_iff_of_nodup hcs.places_nodup.of_map hds.places_nodup.of_map).mpr fun c =>
      (hcs.mem_iff c).trans (hds.mem_iff c).symm
  refine hperm.eq_of_pairwise (fun c d _ _ hcd hdc => ?_) hcs.inOrder hds.inOrder
  exact absurd hdc hcd.asymm

theorem changes_itemizes {actual expected : Json} (hactual : actual.Ordered)
    (hexpected : expected.Ordered) : Itemizes actual expected (changes actual expected) where
  mem_iff := mem_changes_iff hactual hexpected
  places_nodup := changes_places_nodup hactual hexpected
  inOrder := changes_inOrder hactual hexpected

-- A report is the one list of all that two documents differ in, and of nothing else, in the order
-- of their comparison, each difference with the path of its place.
theorem report_itemizes (actual expected : Json) (hactual : actual.Ordered)
    (hexpected : expected.Ordered) :
    ∃ cs, report actual expected = cs.map (Change.map Position.path) ∧
      Itemizes actual expected cs ∧ ∀ other, Itemizes actual expected other → other = cs := by
  have hchanges := changes_itemizes hactual hexpected
  exact ⟨changes actual expected, rfl, hchanges, fun other hother => hother.unique hchanges⟩

-- Keys that are empty or look like paths, on one side only, and a value of another kind.
def tangled : Json :=
  .object [("", .int 1), ("a", .object [("b", .int 1)]), ("a.b", .array [.int 1, .bool true]),
    ("c", .null)]

def untangled : Json :=
  .object [("a", .object [("b", .int 2)]), ("a.b", .array [.int 1]), ("b", .string "x"),
    ("c", .object [])]

theorem report_itemizes_of_untangled :
    tangled.Ordered ∧ untangled.Ordered ∧
      ∃ cs, report tangled untangled = cs.map (Change.map Position.path) ∧
        Itemizes tangled untangled cs ∧ ∀ other, Itemizes tangled untangled other → other = cs := by
  have hordered : tangled.Ordered ∧ untangled.Ordered := by
    simp only [tangled, untangled, Json.int, Json.Ordered, Json.OrderedFields, Json.OrderedItems,
      and_true]
    decide
  exact ⟨hordered.1, hordered.2, report_itemizes _ _ hordered.1 hordered.2⟩

-- The field only the second document has comes last, and two places read alike.
example :
    report tangled untangled =
      [.removed "" (.int 1), .changed "a.b" (.int 1) (.int 2), .removed "a.b[1]" (.bool true),
        .changed "c" .null (.object []), .added "b" (.string "x")] := by
  cbv

end Diff

end Eventually
