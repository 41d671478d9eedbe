import Eventually.Proofs.Diff.Patch
import Mathlib.Data.List.Nodup

namespace Eventually

namespace Json

theorem part?_canonical (document : Json) (step : Diff.Step) :
    document.canonical.part? step = (document.part? step).map canonical := by
  cases document with
  | array items =>
      cases step with
      | key key => rfl
      | index index =>
          simp only [canonical, part?, canonicalItems_eq_map, List.getElem?_map]
  | object fields =>
      cases step with
      | key key => simp only [canonical, part?, canonicalFields_eq_map, Entries.find?_map]
      | index index => rfl
  | _ => cases step <;> rfl

-- Documents of one kind that agree on all parts agree.
theorem Alike.ext {first second : Json} (halike : first.Alike second) (hfirst : first.Ordered)
    (hsecond : second.Ordered)
    (hparts : ∀ step, (first.part? step).map canonical = (second.part? step).map canonical) :
    first.canonical = second.canonical := by
  cases halike with
  | objects =>
      rw [canonical, canonical, object.injEq, canonicalFields_eq_map, canonicalFields_eq_map]
      refine Entries.ext (hfirst.1.map _) (hsecond.1.map _) fun key => ?_
      rw [Entries.find?_map, Entries.find?_map]
      exact hparts (.key key)
  | arrays =>
      rw [canonical, canonical, array.injEq, canonicalItems_eq_map, canonicalItems_eq_map]
      refine List.ext_getElem? fun index => ?_
      rw [List.getElem?_map, List.getElem?_map]
      exact hparts (.index index)

theorem Alike.of_same {first second : Json} (hsame : first.canonical = second.canonical)
    (halike : first.Alike other) : first.Alike second := by
  cases halike <;> cases second <;> simp only [canonical, reduceCtorEq] at hsame
  · exact .objects
  · exact .arrays

theorem Alike.trans {first second third : Json} (hleft : first.Alike second)
    (hright : first.Alike third) : second.Alike third := by
  cases hleft <;> cases hright <;> constructor

end Json

namespace Change

-- Equality of changes: the same place, and the same values there.
def same [BEq ι] : Change ι → Change ι → Bool
  | added place value, added place' value' => place == place' && value == value'
  | removed place value, removed place' value' => place == place' && value == value'
  | changed place actual expected, changed place' actual' expected' =>
      place == place' && actual == actual' && expected == expected'
  | _, _ => false

instance [BEq ι] : BEq (Change ι) := ⟨same⟩

def canonical : Change ι → Change ι
  | added place value => added place value.canonical
  | removed place value => removed place value.canonical
  | changed place actual expected => changed place actual.canonical expected.canonical

theorem beq_iff [BEq ι] [LawfulBEq ι] (c d : Change ι) :
    (c == d) = true ↔ c.canonical = d.canonical := by
  change c.same d = true ↔ _
  cases c <;> cases d <;> simp [same, canonical, Json.beq_iff, and_assoc]

theorem list_beq_iff [BEq ι] [LawfulBEq ι] (cs ds : List (Change ι)) :
    (cs == ds) = true ↔ cs.map canonical = ds.map canonical := by
  induction cs generalizing ds with
  | nil => cases ds <;> simp
  | cons c cs ih =>
      cases ds with
      | nil => simp
      | cons d ds => simp [List.cons_beq_cons, beq_iff, ih]

theorem canonical_map (f : ι → κ) (c : Change ι) : (c.map f).canonical = c.canonical.map f := by
  cases c <;> rfl

theorem map_eq_self {f : ι → ι} {c : Change ι} (hplace : f c.place = c.place) : c.map f = c := by
  cases c with
  | added place value => exact congrArg (added · value) hplace
  | removed place value => exact congrArg (removed · value) hplace
  | changed place actual expected => exact congrArg (changed · actual expected) hplace

theorem canonical_map_list (f : ι → κ) (cs : List (Change ι)) :
    (cs.map (map f)).map canonical = (cs.map canonical).map (map f) := by
  rw [List.map_map, List.map_map]
  exact List.map_congr_left fun c _ => canonical_map f c

theorem place_canonical (c : Change ι) : c.canonical.place = c.place := by cases c <;> rfl

end Change

namespace Diff

theorem below_canonical (step : Step) (cs : List (Change Position)) :
    below step (cs.map Change.canonical) = (below step cs).map Change.canonical := by
  simp [below, List.filter_map, Function.comp_def, Change.place_canonical, Change.canonical_map]

-- Two documents differ as wholes only if one takes the place of the other.
theorem changed_of_place_eq_nil {actual expected : Json} {c : Change Position}
    (hc : c ∈ changes actual expected) (hplace : c.place = []) :
    ¬actual.Alike expected ∧ c = .changed [] actual expected := by
  have halike : ¬actual.Alike expected := fun halike => place_ne_nil halike c hc hplace
  refine ⟨halike, ?_⟩
  rw [changes_of_not_alike halike] at hc
  split at hc
  · cases hc
  · exact List.mem_singleton.mp hc

theorem changes_ne_removed (actual expected value : Json) :
    (changes actual expected).map Change.canonical ≠ [.removed [] value] := by
  intro hremoved
  obtain ⟨c, hchanges, hc⟩ := List.map_eq_singleton_iff.mp hremoved
  have hmem : c ∈ changes actual expected := hchanges ▸ List.mem_singleton_self c
  have hplace : c.place = [] := by rw [← Change.place_canonical, hc]; rfl
  rw [(changed_of_place_eq_nil hmem hplace).2] at hc
  cases hc

-- What is missing on one side and what takes the place of a part can be told from the changes.
theorem partChanges_injective {actual first second : Option Json}
    (hsame : (partChanges actual first).map Change.canonical =
      (partChanges actual second).map Change.canonical)
    (hparts : ∀ part ∈ actual, ∀ other ∈ first, ∀ another ∈ second,
      (changes part other).map Change.canonical = (changes part another).map Change.canonical →
        other.canonical = another.canonical) :
    first.map Json.canonical = second.map Json.canonical := by
  cases actual with
  | none =>
      cases first <;> cases second <;>
        simp only [partChanges, List.map_nil, List.map_cons, reduceCtorEq] at hsame
      · rfl
      · injection hsame with hsame _
        injection hsame with _ hsame
        rw [Option.map_some, Option.map_some, hsame]
  | some part =>
      cases first with
      | none =>
          cases second with
          | none => rfl
          | some another => exact absurd hsame.symm (changes_ne_removed part another _)
      | some other =>
          cases second with
          | none => exact absurd hsame (changes_ne_removed part other _)
          | some another =>
              rw [Option.map_some, Option.map_some, hparts part rfl other rfl another rfl hsame]

-- Changes part by part are never those of a document replaced as a whole.
theorem not_alike_of_changes_eq {actual first second : Json} (halike : actual.Alike first)
    (hsame : (changes actual first).map Change.canonical =
      (changes actual second).map Change.canonical) : actual.Alike second := by
  refine Classical.byContradiction fun hother => ?_
  rw [changes_of_not_alike hother] at hsame
  split at hsame
  · rename_i hequal
    exact hother (.of_same ((Json.beq_iff actual second).mp hequal) halike)
  · obtain ⟨c, hchanges, hc⟩ := List.map_eq_singleton_iff.mp hsame
    have hplace : c.place = [] := by rw [← Change.place_canonical, hc]; rfl
    exact place_ne_nil halike c (hchanges ▸ List.mem_singleton_self c) hplace

theorem changes_injective {actual first second : Json} (hactual : actual.Ordered)
    (hfirst : first.Ordered) (hsecond : second.Ordered)
    (hsame : (changes actual first).map Change.canonical =
      (changes actual second).map Change.canonical) : first.canonical = second.canonical := by
  induction actual using Json.induct generalizing first second with
  | whole actual ih =>
      by_cases halike : actual.Alike first
      · have hother := not_alike_of_changes_eq halike hsame
        refine (halike.trans hother).ext hfirst hsecond fun step => ?_
        have hbelow := congrArg (below step) hsame
        rw [below_canonical, below_canonical, below_changes halike hactual hfirst,
          below_changes hother hactual hsecond] at hbelow
        refine partChanges_injective hbelow fun part hpart other hother another hanother => ?_
        exact ih step part hpart (hactual.part hpart) (hfirst.part hother) (hsecond.part hanother)
      · have hother : ¬actual.Alike second := fun hother =>
          halike (not_alike_of_changes_eq hother hsame.symm)
        rw [changes_of_not_alike halike, changes_of_not_alike hother] at hsame
        split at hsame <;> split at hsame
        · rename_i hequal hequal'
          exact ((Json.beq_iff ..).mp hequal).symm.trans ((Json.beq_iff ..).mp hequal')
        · cases hsame
        · cases hsame
        · injection hsame with hsame _
          injection hsame

theorem changes_eq_nil {actual expected : Json} (hactual : actual.Ordered)
    (hexpected : expected.Ordered) (hsame : actual.canonical = expected.canonical) :
    changes actual expected = [] := by
  induction actual using Json.induct generalizing expected with
  | whole actual ih =>
      by_cases halike : actual.Alike expected
      · refine List.eq_nil_iff_forall_not_mem.mpr fun c hc => ?_
        obtain ⟨step, rest, hplace⟩ := List.exists_cons_of_ne_nil (place_ne_nil halike c hc)
        have hbelow := mem_below hc hplace
        have hpart := congrArg (Json.part? · step) hsame
        simp only [Json.part?_canonical] at hpart
        rw [below_changes halike hactual hexpected] at hbelow
        cases hfirst : actual.part? step with
        | none =>
            cases hsecond : expected.part? step with
            | none => simp [hfirst, hsecond, partChanges] at hbelow
            | some other => simp [hfirst, hsecond] at hpart
        | some part =>
            cases hsecond : expected.part? step with
            | none => simp [hfirst, hsecond] at hpart
            | some other =>
                rw [hfirst, hsecond, Option.map_some, Option.map_some, Option.some.injEq] at hpart
                rw [hfirst, hsecond, partChanges, ih step part hfirst (hactual.part hfirst)
                  (hexpected.part hsecond) hpart] at hbelow
                cases hbelow
      · rw [changes_of_not_alike halike, if_pos ((Json.beq_iff ..).mpr hsame)]

theorem changes_eq_nil_iff {actual expected : Json} (hactual : actual.Ordered)
    (hexpected : expected.Ordered) :
    changes actual expected = [] ↔ (actual == expected) = true := by
  rw [Json.beq_iff]
  refine ⟨fun hchanges => ?_, changes_eq_nil hactual hexpected⟩
  refine changes_injective hactual hactual hexpected ?_
  rw [hchanges, changes_eq_nil hactual hactual rfl]

theorem report_eq_nil_iff {actual expected : Json} (hactual : actual.Ordered)
    (hexpected : expected.Ordered) :
    report actual expected = [] ↔ actual.canonical = expected.canonical := by
  rw [report, List.map_eq_nil_iff, changes_eq_nil_iff hactual hexpected, Json.beq_iff]

-- The document after the changes of a report, each made where its path leads.
def apply (document : Json) (changes : List FieldChange) : Option Json :=
  patch document (changes.map (Change.map Position.ofPath))

theorem ofPath_report {actual expected : Json} (hactual : actual.Ordered)
    (hexpected : expected.Ordered) (hplain : actual.PlainKeys) (hplain' : expected.PlainKeys) :
    (report actual expected).map (Change.map Position.ofPath) = changes actual expected := by
  have hread : ∀ c ∈ changes actual expected, (c.map Position.path).map Position.ofPath = c := by
    intro c hc
    have hsteps := changes_places_plain hactual hexpected hplain hplain' c hc
    rw [Change.map_map]
    exact Change.map_eq_self (Position.ofPath_path hsteps)
  rw [report, List.map_map]
  exact (List.map_congr_left hread).trans (List.map_id _)

-- As long as paths can be read back, a report tells all that the expected document has different:
-- its changes lie apart, making them gives that document, and no other has the same report.
theorem report_faithful (actual expected : Json) (hactual : actual.Ordered)
    (hexpected : expected.Ordered) (hplain : actual.PlainKeys) (hplain' : expected.PlainKeys) :
    ((report actual expected).map Change.place).Nodup ∧
      (∃ patched, apply actual (report actual expected) = some patched ∧
        (patched == expected) = true) ∧
      (∀ other : Json, other.Ordered → other.PlainKeys →
        (report actual expected == report actual other) = true → (expected == other) = true) ∧
      (report actual expected = [] ↔ (actual == expected) = true) := by
  have hread := ofPath_report hactual hexpected hplain hplain'
  refine ⟨?_, ?_, fun other hother hplainOther hsame => ?_, ?_⟩
  · have hplaces : ((report actual expected).map Change.place).map Position.ofPath =
        (changes actual expected).map Change.place := by
      rw [← hread, List.map_map, List.map_map]
      exact List.map_congr_left fun c _ => (Change.place_map ..).symm
    exact List.Nodup.of_map _ (hplaces ▸ changes_places_nodup hactual hexpected)
  · have hpatch := patch_changes hactual hexpected
    obtain ⟨patched, hpatched, hsame⟩ := Option.map_eq_some_iff.mp hpatch
    exact ⟨patched, by rw [apply, hread, hpatched], (Json.beq_iff ..).mpr hsame⟩
  · have hreadOther := ofPath_report hactual hother hplain hplainOther
    have hreports := (Change.list_beq_iff ..).mp hsame
    refine (Json.beq_iff ..).mpr (changes_injective hactual hexpected hother ?_)
    rw [← hread, ← hreadOther, Change.canonical_map_list, Change.canonical_map_list, hreports]
  · rw [report, List.map_eq_nil_iff, changes_eq_nil_iff hactual hexpected]

-- A rewritten label, a new one, an item more and a field less, behind keys that are not paths.
def labelled : Json :=
  .object [("metadata", .object [("labels", .object [("a]b", .string "base"), ("tier", .null)])]),
    ("status", .array [.object [("type", .string "Ready")]])]

def relabelled : Json :=
  .object [("metadata", .object [("labels", .object [("a]b", .int 1), ("owner", .string "x")])]),
    ("status", .array [.object [("type", .string "Ready")], .number (.double .zero)])]

theorem report_faithful_of_relabelled :
    labelled.Ordered ∧ relabelled.Ordered ∧ labelled.PlainKeys ∧ relabelled.PlainKeys ∧
      ((report labelled relabelled).map Change.place).Nodup ∧
      (∃ patched, apply labelled (report labelled relabelled) = some patched ∧
        (patched == relabelled) = true) ∧
      (∀ other : Json, other.Ordered → other.PlainKeys →
        (report labelled relabelled == report labelled other) = true →
          (relabelled == other) = true) ∧
      (report labelled relabelled = [] ↔ (labelled == relabelled) = true) := by
  have hordered : labelled.Ordered ∧ relabelled.Ordered := by
    simp only [labelled, relabelled, Json.int, Json.Ordered, Json.OrderedFields, Json.OrderedItems,
      and_true]
    decide
  have hplain : labelled.PlainKeys ∧ relabelled.PlainKeys := by
    simp only [labelled, relabelled, Json.int, Json.PlainKeys, Json.PlainFields, Json.PlainItems,
      and_true]
    decide
  exact ⟨hordered.1, hordered.2, hplain.1, hplain.2,
    report_faithful _ _ hordered.1 hordered.2 hplain.1 hplain.2⟩

end Diff

end Eventually
