import Eventually.Diff.Basic
import Eventually.Proofs.Json

namespace Eventually

namespace Json

-- The part of a document that one step leads to.
def part? : Json → Diff.Step → Option Json
  | object fields, .key key => Entries.find? key fields
  | array items, .index index => items[index]?
  | _, _ => none

theorem sizeOf_find?_lt {key : String} {fields : List (String × Json)} {part : Json}
    (hfind : Entries.find? key fields = some part) : sizeOf part < sizeOf fields := by
  induction fields with
  | nil => cases hfind
  | cons head rest ih =>
      obtain ⟨k, value⟩ := head
      simp only [Entries.find?] at hfind
      split at hfind
      · cases hfind
        simp only [List.cons.sizeOf_spec, Prod.mk.sizeOf_spec]
        omega
      · have hlt := ih hfind
        simp only [List.cons.sizeOf_spec]
        omega

theorem sizeOf_part?_lt {document part : Json} {step : Diff.Step}
    (hpart : document.part? step = some part) : sizeOf part < sizeOf document := by
  cases document <;> cases step <;> simp only [part?, reduceCtorEq] at hpart
  · have hlt := List.sizeOf_lt_of_mem (List.mem_of_getElem? hpart)
    simp only [array.sizeOf_spec]
    omega
  · have hlt := sizeOf_find?_lt hpart
    simp only [object.sizeOf_spec]
    omega

-- What passes from the parts of each document to the document holds of all documents.
theorem induct {motive : Json → Prop}
    (whole : ∀ document, (∀ step part, document.part? step = some part → motive part) →
      motive document) (document : Json) : motive document :=
  whole document fun _ part _ => induct whole part
termination_by document
decreasing_by exact sizeOf_part?_lt ‹_›

theorem Ordered.part {document part : Json} (hordered : document.Ordered) {step : Diff.Step}
    (hpart : document.part? step = some part) : part.Ordered := by
  cases document <;> cases step <;> simp only [part?, reduceCtorEq] at hpart
  · exact (orderedItems_iff _).mp hordered part (List.mem_of_getElem? hpart)
  · exact (orderedFields_iff _).mp hordered.2 (_, part) (Entries.mem_of_find? hpart)

-- The part of a document that lies at a place.
def at? (document : Json) : Diff.Position → Option Json
  | [] => some document
  | step :: rest => (document.part? step).bind (·.at? rest)

-- What all places of a document have in common.
def AllPlaces (P : Diff.Position → Prop) (document : Json) : Prop :=
  ∀ position, (document.at? position).isSome → P position

theorem AllPlaces.imp {P Q : Diff.Position → Prop} {document : Json}
    (hplaces : document.AllPlaces P) (himp : ∀ position, P position → Q position) :
    document.AllPlaces Q := fun position hat => himp position (hplaces position hat)

theorem allPlaces_of_parts {P : Diff.Position → Prop} {document : Json} (hroot : P [])
    (hparts : ∀ step part, document.part? step = some part →
      part.AllPlaces fun rest => P (step :: rest)) : document.AllPlaces P := by
  intro position hat
  cases position with
  | nil => exact hroot
  | cons step rest =>
      cases hpart : document.part? step with
      | none => simp [at?, hpart] at hat
      | some part =>
          rw [at?, hpart, Option.bind_some] at hat
          exact hparts step part hpart rest hat

-- Two objects, or two arrays: these are compared part by part.
inductive Alike : Json → Json → Prop
  | objects : Alike (object fields) (object others)
  | arrays : Alike (array items) (array others)

end Json

namespace Change

theorem place_map (f : ι → κ) (c : Change ι) : (c.map f).place = f c.place := by
  cases c <;> rfl

theorem map_map (f : ι → κ) (g : κ → θ) (c : Change ι) : (c.map f).map g = c.map (g ∘ f) := by
  cases c <;> rfl

theorem map_id (c : Change ι) : c.map id = c := by cases c <;> rfl

end Change

namespace Diff

-- The changes that lie behind a step, as they are seen from there.
def below (step : Step) (changes : List (Change Position)) : List (Change Position) :=
  (changes.filter fun c => c.place.head? = some step).map (Change.map List.tail)

-- The changes of a part that may be missing on either side.
def partChanges : Option Json → Option Json → List (Change Position)
  | some actual, some expected => changes actual expected
  | some actual, none => [.removed [] actual]
  | none, some expected => [.added [] expected]
  | none, none => []

theorem below_nil (step : Step) : below step [] = [] := rfl

theorem below_append (step : Step) (cs ds : List (Change Position)) :
    below step (cs ++ ds) = below step cs ++ below step ds := by
  simp [below]

theorem below_under (step other : Step) (cs : List (Change Position)) :
    below step (under other cs) = if other = step then cs else [] := by
  have hback : ∀ c : Change Position, (c.map (other :: ·)).map List.tail = c := fun c =>
    (Change.map_map ..).trans c.map_id
  have hhead : ∀ c : Change Position, (c.map (other :: ·)).place.head? = some other := by
    intro c
    rw [Change.place_map, List.head?_cons]
  by_cases heq : other = step
  · subst heq
    simp [below, under, List.filter_map, Function.comp_def, hhead, hback]
  · simp [below, under, List.filter_map, Function.comp_def, hhead, heq]

theorem below_eq_nil {step : Step} {cs : List (Change Position)}
    (hplace : ∀ c ∈ cs, c.place.head? ≠ some step) : below step cs = [] := by
  have hfilter : cs.filter (fun c => c.place.head? = some step) = [] :=
    List.filter_eq_nil_iff.mpr fun c hc => by simpa using hplace c hc
  rw [below, hfilter, List.map_nil]

theorem head?_of_mem_under {step : Step} {cs : List (Change Position)} {c : Change Position}
    (hc : c ∈ under step cs) : c.place.head? = some step := by
  obtain ⟨d, _, rfl⟩ := List.mem_map.mp hc
  rw [Change.place_map, List.head?_cons]

-- Each part of a document brings up one group of changes.
theorem fieldChanges_cons (key : String) (value : Json) (rest expected : List (String × Json)) :
    fieldChanges ((key, value) :: rest) expected =
      under (.key key) (partChanges (some value) (Entries.find? key expected)) ++
        fieldChanges rest expected := by
  rw [fieldChanges]
  cases Entries.find? key expected <;> rfl

theorem addedFields_cons (actual : List (String × Json)) (key : String) (value : Json)
    (rest : List (String × Json)) :
    addedFields actual ((key, value) :: rest) =
      (if (Entries.find? key actual).isSome then []
        else under (.key key) (partChanges none (some value))) ++ addedFields actual rest := by
  cases hfind : Entries.find? key actual <;>
    simp [addedFields, hfind, under, partChanges, Change.map]

-- This covers the cases in which one of the arrays has come to its end.
theorem itemChanges_eq (start : Nat) (actual expected : List Json) :
    itemChanges start actual expected =
      under (.index start) (partChanges actual.head? expected.head?) ++
        itemChanges (start + 1) actual.tail expected.tail := by
  cases actual <;> cases expected <;> rfl

section Objects

variable (actual expected : List (String × Json))

theorem head?_of_mem_fieldChanges : ∀ c ∈ fieldChanges actual expected,
    ∃ field ∈ actual, c.place.head? = some (.key field.1) := by
  induction actual with
  | nil => simp [fieldChanges]
  | cons head rest ih =>
      intro c hc
      rw [fieldChanges_cons] at hc
      rcases List.mem_append.mp hc with hc | hc
      · exact ⟨head, List.mem_cons_self, head?_of_mem_under hc⟩
      · obtain ⟨field, hfield, hhead⟩ := ih c hc
        exact ⟨field, List.mem_cons_of_mem _ hfield, hhead⟩

-- Under each key there is at most one field, so no other group of changes lies behind it.
theorem below_fieldChanges (key : String) (hactual : Entries.Ordered actual) :
    below (.key key) (fieldChanges actual expected) =
      if (Entries.find? key actual).isSome then
        partChanges (Entries.find? key actual) (Entries.find? key expected)
      else [] := by
  induction actual with
  | nil => rfl
  | cons head rest ih =>
      obtain ⟨k, value⟩ := head
      obtain ⟨hhead, hrest⟩ := List.pairwise_cons.mp hactual
      rw [fieldChanges_cons, below_append, below_under, ih hrest]
      by_cases hk : k = key
      · subst hk
        have hnone : Entries.find? k rest = none := Entries.find?_eq_none_of_forall_lt hhead
        simp [Entries.find?, hnone]
      · simp [Entries.find?, hk]

theorem below_addedFields (key : String) (hexpected : Entries.Ordered expected) :
    below (.key key) (addedFields actual expected) =
      if (Entries.find? key actual).isSome then []
      else partChanges none (Entries.find? key expected) := by
  induction expected with
  | nil => simp [addedFields, below_nil, partChanges, Entries.find?]
  | cons head rest ih =>
      obtain ⟨k, value⟩ := head
      obtain ⟨hhead, hrest⟩ := List.pairwise_cons.mp hexpected
      rw [addedFields_cons, below_append, ih hrest]
      by_cases hk : k = key
      · subst hk
        have hnone : Entries.find? k rest = none := Entries.find?_eq_none_of_forall_lt hhead
        cases Entries.find? k actual <;>
          simp [below_under, below_nil, Entries.find?, hnone, partChanges]
      · cases Entries.find? k actual <;> simp [below_under, below_nil, Entries.find?, hk]

theorem below_key (key : String) (hactual : Entries.Ordered actual)
    (hexpected : Entries.Ordered expected) :
    below (.key key) (changes (.object actual) (.object expected)) =
      partChanges (Entries.find? key actual) (Entries.find? key expected) := by
  rw [changes, below_append, below_fieldChanges _ _ key hactual,
    below_addedFields _ _ key hexpected]
  cases Entries.find? key actual <;> simp

theorem head?_of_mem_objects : ∀ c ∈ changes (.object actual) (.object expected),
    ∃ key, c.place.head? = some (.key key) := by
  intro c hc
  rw [changes] at hc
  rcases List.mem_append.mp hc with hc | hc
  · obtain ⟨field, _, hhead⟩ := head?_of_mem_fieldChanges actual expected c hc
    exact ⟨field.1, hhead⟩
  · obtain ⟨field, _, rfl⟩ := List.mem_map.mp hc
    exact ⟨field.1, rfl⟩

end Objects

section Arrays

-- What passes from the later groups of an array to all of them holds of the whole.
theorem itemChanges_induct {motive : Nat → List (Change Position) → Prop}
    (nil : ∀ start, motive start [])
    (group : ∀ start part other actual expected,
      motive (start + 1) (itemChanges (start + 1) actual expected) →
        motive start (under (.index start) (partChanges part other) ++
          itemChanges (start + 1) actual expected))
    (start : Nat) (actual expected : List Json) :
    motive start (itemChanges start actual expected) := by
  induction actual generalizing start expected with
  | nil =>
      induction expected generalizing start with
      | nil => exact nil start
      | cons other others ih =>
          rw [itemChanges_eq]
          exact group start _ _ [] others (ih (start + 1))
  | cons item rest ih =>
      rw [itemChanges_eq]
      exact group start _ _ rest expected.tail (ih (start + 1) expected.tail)

theorem head?_of_mem_itemChanges (start : Nat) (actual expected : List Json) :
    ∀ c ∈ itemChanges start actual expected,
      ∃ index, start ≤ index ∧ c.place.head? = some (.index index) := by
  refine itemChanges_induct (motive := fun start cs =>
    ∀ c ∈ cs, ∃ index, start ≤ index ∧ c.place.head? = some (.index index))
    (fun _ => List.forall_mem_nil _) (fun start _ _ _ _ ih c hc => ?_) start actual expected
  rcases List.mem_append.mp hc with hc | hc
  · exact ⟨start, Nat.le_refl _, head?_of_mem_under hc⟩
  · obtain ⟨index, hle, hhead⟩ := ih c hc
    exact ⟨index, by omega, hhead⟩

-- Counted from the first item, the groups lie at the places of the items.
theorem below_itemChanges (start offset : Nat) (actual expected : List Json) :
    below (.index (start + offset)) (itemChanges start actual expected) =
      partChanges actual[offset]? expected[offset]? := by
  induction offset generalizing start actual expected with
  | zero =>
      have hrest :
          below (.index start) (itemChanges (start + 1) actual.tail expected.tail) = [] := by
        refine below_eq_nil fun c hc hhead => ?_
        obtain ⟨index, hle, hindex⟩ := head?_of_mem_itemChanges _ _ _ c hc
        rw [hhead] at hindex
        cases hindex
        omega
      rw [itemChanges_eq, below_append, Nat.add_zero, below_under, if_pos rfl, hrest,
        List.append_nil, List.head?_eq_getElem?, List.head?_eq_getElem?]
  | succ offset ih =>
      have hne : ¬Step.index start = .index (start + (offset + 1)) := by
        intro heq
        have hindex := Step.index.inj heq
        omega
      have hcount : start + (offset + 1) = start + 1 + offset := by omega
      rw [itemChanges_eq, below_append, below_under, if_neg hne, List.nil_append, hcount, ih,
        List.getElem?_tail, List.getElem?_tail]

end Arrays

-- Documents of one kind are compared part by part, and what lies behind a step is the comparison
-- of the two parts there.
theorem below_changes {actual expected : Json} (halike : actual.Alike expected)
    (hactual : actual.Ordered) (hexpected : expected.Ordered) (step : Step) :
    below step (changes actual expected) =
      partChanges (actual.part? step) (expected.part? step) := by
  cases halike with
  | objects =>
      cases step with
      | key key => exact below_key _ _ key hactual.1 hexpected.1
      | index index =>
          refine below_eq_nil fun c hc hhead => ?_
          obtain ⟨key, hkey⟩ := head?_of_mem_objects _ _ c hc
          rw [hhead] at hkey
          cases hkey
  | arrays =>
      cases step with
      | key key =>
          refine below_eq_nil fun c hc hhead => ?_
          obtain ⟨index, _, hindex⟩ := head?_of_mem_itemChanges _ _ _ c hc
          rw [hhead] at hindex
          cases hindex
      | index index =>
          have hbelow := below_itemChanges 0 index
          simp only [Nat.zero_add] at hbelow
          exact hbelow _ _

theorem place_ne_nil {actual expected : Json} (halike : actual.Alike expected) :
    ∀ c ∈ changes actual expected, c.place ≠ [] := by
  intro c hc hplace
  cases halike with
  | objects =>
      obtain ⟨key, hkey⟩ := head?_of_mem_objects _ _ c hc
      rw [hplace] at hkey
      cases hkey
  | arrays =>
      obtain ⟨index, _, hindex⟩ := head?_of_mem_itemChanges _ _ _ c hc
      rw [hplace] at hindex
      cases hindex

theorem changes_of_not_alike {actual expected : Json} (halike : ¬actual.Alike expected) :
    changes actual expected =
      if actual == expected then [] else [.changed [] actual expected] := by
  cases actual <;> cases expected <;> first | exact absurd (by constructor) halike | rfl

theorem mem_below {step : Step} {rest : Position} {cs : List (Change Position)}
    {c : Change Position} (hc : c ∈ cs) (hplace : c.place = step :: rest) :
    c.map List.tail ∈ below step cs :=
  List.mem_map.mpr ⟨c, List.mem_filter.mpr ⟨hc, by simp [hplace]⟩, rfl⟩

-- Changes that all lie behind some step are apart if those behind each step are.
theorem nodup_places {cs : List (Change Position)} (hne : ∀ c ∈ cs, c.place ≠ [])
    (hbelow : ∀ step, ((below step cs).map Change.place).Nodup) :
    (cs.map Change.place).Nodup := by
  induction cs with
  | nil => exact List.nodup_nil
  | cons c rest ih =>
      obtain ⟨hc, hrest⟩ := List.forall_mem_cons.mp hne
      obtain ⟨step, tail, hplace⟩ := List.exists_cons_of_ne_nil hc
      have hsplit : ∀ other, below other (c :: rest) = below other [c] ++ below other rest :=
        fun other => below_append other [c] rest
      have happart : ∀ other, ((below other rest).map Change.place).Nodup ∧
          ∀ p ∈ (below other [c]).map Change.place, ∀ q ∈ (below other rest).map Change.place,
            p ≠ q := by
        intro other
        have hnodup := hbelow other
        rw [hsplit, List.map_append, List.nodup_append] at hnodup
        exact hnodup.2
      refine List.nodup_cons.mpr ⟨fun hmem => ?_, ih hrest fun other => (happart other).1⟩
      obtain ⟨d, hd, heq⟩ := List.mem_map.mp hmem
      have hfirst := mem_below (List.mem_singleton_self c) hplace
      have hsecond := mem_below hd (heq.trans hplace)
      refine (happart step).2 _ (List.mem_map_of_mem hfirst) _ (List.mem_map_of_mem hsecond) ?_
      rw [Change.place_map, Change.place_map, heq]

theorem changes_places_nodup {actual expected : Json} (hactual : actual.Ordered)
    (hexpected : expected.Ordered) : ((changes actual expected).map Change.place).Nodup := by
  induction actual using Json.induct generalizing expected with
  | whole actual ih =>
      by_cases halike : actual.Alike expected
      · refine nodup_places (place_ne_nil halike) fun step => ?_
        rw [below_changes halike hactual hexpected]
        cases hpart : actual.part? step with
        | none => cases expected.part? step <;> simp [partChanges]
        | some part =>
            cases hother : expected.part? step with
            | none => simp [partChanges]
            | some other => exact ih step part hpart (hactual.part hpart) (hexpected.part hother)
      · rw [changes_of_not_alike halike]
        split <;> simp

-- Nothing is reported about a place that is in neither document.
theorem changes_places {actual expected : Json} (hactual : actual.Ordered)
    (hexpected : expected.Ordered) :
    ∀ c ∈ changes actual expected, (actual.at? c.place).isSome ∨ (expected.at? c.place).isSome := by
  induction actual using Json.induct generalizing expected with
  | whole actual ih =>
      intro c hc
      by_cases halike : actual.Alike expected
      · obtain ⟨step, rest, hplace⟩ := List.exists_cons_of_ne_nil (place_ne_nil halike c hc)
        have hbelow := mem_below hc hplace
        rw [below_changes halike hactual hexpected] at hbelow
        have htail : (c.map List.tail).place = rest := by
          rw [Change.place_map, hplace, List.tail_cons]
        rw [hplace, Json.at?, Json.at?, ← htail]
        cases hpart : actual.part? step with
        | none =>
            cases hother : expected.part? step with
            | none => simp [hpart, hother, partChanges] at hbelow
            | some other =>
                rw [hpart, hother, partChanges, List.mem_singleton] at hbelow
                rw [hbelow]
                exact .inr rfl
        | some part =>
            cases hother : expected.part? step with
            | none =>
                rw [hpart, hother, partChanges, List.mem_singleton] at hbelow
                rw [hbelow]
                exact .inl rfl
            | some other =>
                rw [hpart, hother, partChanges] at hbelow
                exact ih step part hpart (hactual.part hpart) (hexpected.part hother) _ hbelow
      · rw [changes_of_not_alike halike] at hc
        split at hc
        · cases hc
        · rw [List.mem_singleton.mp hc]
          exact .inl rfl

end Diff

end Eventually
