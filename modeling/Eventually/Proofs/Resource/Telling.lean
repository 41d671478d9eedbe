import Eventually.Proofs.Diff.Legible
import Eventually.Proofs.Resource.Document
import Eventually.Proofs.Resource.Standard

namespace Eventually

namespace Json

@[simp] theorem string_plainKeys (text : String) : (string text).PlainKeys := trivial

@[simp] theorem bool_plainKeys (value : Bool) : (bool value).PlainKeys := trivial

@[simp] theorem int_plainKeys (value : Int) : (int value).PlainKeys := trivial

@[simp] theorem plainFields_nil : PlainFields [] := trivial

@[simp] theorem plainFields_cons (field : String × Json) (rest : List (String × Json)) :
    PlainFields (field :: rest) ↔
      Diff.PlainKey field.1 ∧ field.2.PlainKeys ∧ PlainFields rest := Iff.rfl

@[simp] theorem plainFields_append (fields others : List (String × Json)) :
    PlainFields (fields ++ others) ↔ PlainFields fields ∧ PlainFields others := by
  simp only [plainFields_iff, List.forall_mem_append]

@[simp] theorem map_plainKeys (write : α → Json) (values : List α) :
    (array (values.map write)).PlainKeys ↔ ∀ value ∈ values, (write value).PlainKeys :=
  (plainItems_iff _).trans List.forall_mem_map

@[simp] theorem present_plainFields (name : String) (write : α → Json) (value? : Option α) :
    PlainFields (present name write value?) ↔
      ∀ value ∈ value?, Diff.PlainKey name ∧ (write value).PlainKeys := by
  cases value? <;> simp [present]

@[simp] theorem presentList_plainFields (name : String) (write : α → Json) (values : List α) :
    PlainFields (presentList name write values) ↔
      (values ≠ [] → Diff.PlainKey name ∧ ∀ value ∈ values, (write value).PlainKeys) := by
  cases values <;> simp [presentList, -List.map_cons]

theorem ofFields_plainKeys {fields : List (String × Json)} (hfields : PlainFields fields) :
    (ofFields fields).PlainKeys :=
  (plainFields_iff _).mpr fun field hmem =>
    (plainFields_iff fields).mp hfields field (Entries.mem_of_mem_ofList hmem)

end Json

-- Where the documents of objects have keys of any letters.
def labelPlaces : List Diff.Position :=
  [[.key "metadata", .key "labels"], [.key "metadata", .key "annotations"]]

theorem labelPlaces_separate : Diff.Position.Separate labelPlaces where
  ne_nil := by decide
  plain := by simp [labelPlaces, Diff.Step.Plain, Diff.PlainKey]
  apart := by decide

namespace LabelMap

theorem toJson_legible (labels : LabelMap) {place : Diff.Position} (hplace : place ∈ labelPlaces) :
    labels.toJson.AllPlaces fun rest => Diff.Position.Legible labelPlaces (place ++ rest) := by
  refine Json.allPlaces_of_parts ?_ fun step part hpart => ?_
  · rw [List.append_nil]
    exact .plain (labelPlaces_separate.plain place hplace) fun map hmap hle =>
      labelPlaces_separate.apart map hmap place hplace hle
  · cases step with
    | index index => cases hpart
    | key key =>
        obtain ⟨entry, _, hentry⟩ := List.mem_map.mp (Entries.mem_of_find? hpart)
        cases hentry
        refine Json.allPlaces_of_parts (.key hplace _) fun step part hleaf => ?_
        cases hleaf

end LabelMap

-- What is reported between two objects says what the second one is: the changes lie at places with
-- different paths, and no other object has the same changes from the first.
structure Told (write : α → Json) : Prop where
  apart : ∀ actual expected : α,
    ((Diff.report (write actual) (write expected)).map Change.place).Nodup
  tells : ∀ actual expected other : α,
    (Diff.report (write actual) (write expected) == Diff.report (write actual) (write other)) = true →
      expected = other

theorem told_of_legible {write : α → Json} (hordered : ∀ object, (write object).Ordered)
    (hlegible : ∀ object, (write object).AllPlaces (Diff.Position.Legible labelPlaces))
    (hwrite : ∀ object other, (write object).canonical = (write other).canonical →
      object = other) : Told write := by
  have hpaths := Diff.Position.path_injOn_legible labelPlaces_separate
  constructor
  case apart =>
    intro actual expected
    exact Diff.report_places_nodup hpaths (hordered actual) (hordered expected) (hlegible actual)
      (hlegible expected)
  case tells =>
    intro actual expected other hsame
    refine hwrite expected other ?_
    exact Diff.canonical_eq_of_report_eq hpaths (hordered actual) (hordered expected)
      (hordered other) (hlegible actual) (hlegible expected) (hlegible other) hsame

section

variable [Stamps]

namespace Metadata

-- The metadata without their labels and annotations, whose keys are not restricted.
def unlabelled (m : Metadata) : Metadata := { m with labels := .empty, annotations := .empty }

theorem unlabelled_plainKeys (m : Metadata) : m.unlabelled.toJson.PlainKeys :=
  Json.ofFields_plainKeys
    (by simp [unlabelled, labelField, LabelMap.empty, LabelMap.isEmpty, Diff.PlainKey])

theorem part?_unlabelled (m : Metadata) {key : String} (hlabels : key ≠ "labels")
    (hannotations : key ≠ "annotations") :
    m.toJson.part? (.key key) = m.unlabelled.toJson.part? (.key key) := by
  simp [toJson, unlabelled, Json.ofFields, Json.part?, Entries.find?_ofList, Entries.find?_append,
    Entries.find?, Ne.symm hlabels, Ne.symm hannotations]

theorem eq_of_part?_labels (m : Metadata) {part : Json}
    (hpart : m.toJson.part? (.key "labels") = some part) : part = m.labels.toJson := by
  have hfield : m.labels.entries ≠ [] ∧ m.labels.toJson = part := by
    simpa [toJson, Json.ofFields, Json.part?, Entries.find?_ofList, Entries.find?_append,
      Entries.find?] using hpart
  exact hfield.2.symm

theorem eq_of_part?_annotations (m : Metadata) {part : Json}
    (hpart : m.toJson.part? (.key "annotations") = some part) : part = m.annotations.toJson := by
  have hfield : m.annotations.entries ≠ [] ∧ m.annotations.toJson = part := by
    simpa [toJson, Json.ofFields, Json.part?, Entries.find?_ofList, Entries.find?_append,
      Entries.find?] using hpart
  exact hfield.2.symm

end Metadata

theorem Condition.toJson_plainKeys (c : Condition) : c.toJson.PlainKeys :=
  Json.ofFields_plainKeys (by simp [ConditionStatus.toJson, Diff.PlainKey])

namespace Space

theorem specToJson_plainKeys (space : Space) : space.specToJson.PlainKeys :=
  Json.ofFields_plainKeys (by simp [Diff.PlainKey])

theorem statusToJson_plainKeys (space : Space) : space.statusToJson.PlainKeys :=
  Json.ofFields_plainKeys
    (by simp [Diff.PlainKey, Condition.listToJson, Condition.toJson_plainKeys])

end Space

namespace UserSignup

theorem specToJson_plainKeys (signup : UserSignup) : signup.specToJson.PlainKeys :=
  Json.ofFields_plainKeys (by simp [Diff.PlainKey])

theorem statusToJson_plainKeys (signup : UserSignup) : signup.statusToJson.PlainKeys :=
  Json.ofFields_plainKeys
    (by simp [Diff.PlainKey, Condition.listToJson, Condition.toJson_plainKeys])

end UserSignup

namespace Metadata

theorem toJson_legible (m : Metadata) :
    m.toJson.AllPlaces fun rest =>
      Diff.Position.Legible labelPlaces (.key "metadata" :: rest) := by
  refine Json.allPlaces_of_parts (.plain (by simp [Diff.Step.Plain, Diff.PlainKey]) (by decide)) ?_
  intro step part hpart
  cases step with
  | index index => cases hpart
  | key key =>
      by_cases hlabels : key = "labels"
      · subst hlabels
        rw [m.eq_of_part?_labels hpart]
        exact m.labels.toJson_legible (.head _)
      by_cases hannotations : key = "annotations"
      · subst hannotations
        rw [m.eq_of_part?_annotations hpart]
        exact m.annotations.toJson_legible (.tail _ (.head _))
      rw [part?_unlabelled m hlabels hannotations] at hpart
      obtain ⟨hkey, hplain⟩ := m.unlabelled_plainKeys.part hpart
      refine hplain.allPlaces.imp fun rest hrest => .plain ?_ ?_
      · simpa [Diff.Step.Plain, Diff.PlainKey] using ⟨hkey, hrest⟩
      · simp [labelPlaces, List.cons_prefix_cons, Ne.symm hlabels, Ne.symm hannotations]

end Metadata

theorem sections_legible (m : Metadata) {spec status : Json} (hspec : spec.PlainKeys)
    (hstatus : status.PlainKeys) :
    (Json.ofFields [("metadata", m.toJson), ("spec", spec), ("status", status)]).AllPlaces
      (Diff.Position.Legible labelPlaces) := by
  have hroot : Diff.Position.Legible labelPlaces [] := .plain (by simp) (by decide)
  -- What does not lie in the metadata lies in no map.
  have hplain {key : String} (hkey : Diff.PlainKey key) (hother : key ≠ "metadata")
      {part : Json} (hpart : part.PlainKeys) :
      part.AllPlaces fun rest => Diff.Position.Legible labelPlaces (.key key :: rest) := by
    refine hpart.allPlaces.imp fun rest hrest => .plain ?_ ?_
    · exact List.forall_mem_cons.mpr ⟨hkey, hrest⟩
    · simp [labelPlaces, List.cons_prefix_cons, Ne.symm hother]
  refine Json.allPlaces_of_parts hroot fun step part hpart => ?_
  cases step with
  | index index => cases hpart
  | key key =>
      have hfield := Entries.mem_of_mem_ofList (Entries.mem_of_find? hpart)
      simp only [List.mem_cons, Prod.mk.injEq, List.not_mem_nil, or_false] at hfield
      rcases hfield with ⟨rfl, rfl⟩ | ⟨rfl, rfl⟩ | ⟨rfl, rfl⟩
      · exact m.toJson_legible
      · exact hplain (by decide) (by decide) hspec
      · exact hplain (by decide) (by decide) hstatus

theorem Space.toJson_legible (space : Space) :
    space.toJson.AllPlaces (Diff.Position.Legible labelPlaces) :=
  sections_legible space.metadata space.specToJson_plainKeys space.statusToJson_plainKeys

theorem UserSignup.toJson_legible (signup : UserSignup) :
    signup.toJson.AllPlaces (Diff.Position.Legible labelPlaces) :=
  sections_legible signup.metadata signup.specToJson_plainKeys signup.statusToJson_plainKeys

-- Objects that are written alike are equal where identifiers and instants are told by their texts.

theorem Metadata.WrittenAlike.eq (hstamps : Stamps.TextsDiffer) {m n : Metadata}
    (halike : m.WrittenAlike n) : m = n := by
  have huid := Option.map_injective (fun _ _ hsame => hstamps.uid hsame) halike.uid
  have hcreated := Option.map_injective (fun _ _ hsame => hstamps.instant hsame) halike.created
  rw [Metadata.mk.injEq]
  exact ⟨halike.name, halike.scope, halike.labels, halike.annotations, halike.finalizers, huid,
    halike.generation, hcreated⟩

theorem Condition.WrittenAlike.eq (hstamps : Stamps.TextsDiffer) {c d : Condition}
    (halike : c.WrittenAlike d) : c = d := by
  have hchanged := Option.map_injective (fun _ _ hsame => hstamps.instant hsame) halike.changed
  rw [Condition.mk.injEq]
  exact ⟨halike.type, halike.status, halike.reason, halike.message, hchanged⟩

theorem Condition.eq_of_listWrittenAlike (hstamps : Stamps.TextsDiffer) {cs ds : Conditions}
    (halike : List.Forall₂ WrittenAlike cs ds) : cs = ds := by
  rw [← List.forall₂_eq_eq_eq]
  exact halike.imp fun _ _ => WrittenAlike.eq hstamps

theorem Space.WrittenAlike.eq (hstamps : Stamps.TextsDiffer) {a b : Space}
    (halike : a.WrittenAlike b) : a = b := by
  rw [Space.mk.injEq]
  exact ⟨halike.metadata.eq hstamps, halike.tier, halike.targetCluster, halike.landedCluster,
    halike.provisioned, Condition.eq_of_listWrittenAlike hstamps halike.conditions⟩

theorem UserSignup.WrittenAlike.eq (hstamps : Stamps.TextsDiffer) {a b : UserSignup}
    (halike : a.WrittenAlike b) : a = b := by
  rw [UserSignup.mk.injEq]
  exact ⟨halike.metadata.eq hstamps, halike.username, halike.approved, halike.compliantUsername,
    Condition.eq_of_listWrittenAlike hstamps halike.conditions⟩

-- Labels and annotations may have keys of any letters, also empty ones and such as read like paths.
theorem reports_tell_objects (hstamps : Stamps.TextsDiffer) :
    Told Space.toJson ∧ Told UserSignup.toJson :=
  ⟨told_of_legible Space.toJson_ordered Space.toJson_legible fun _ _ hsame =>
      (Space.writtenAlike_of_same hsame).eq hstamps,
    told_of_legible UserSignup.toJson_ordered UserSignup.toJson_legible fun _ _ hsame =>
      (UserSignup.writtenAlike_of_same hsame).eq hstamps⟩

end

theorem reports_tell_objects_of_standard :
    Stamps.TextsDiffer ∧ Told Space.toJson ∧ Told UserSignup.toJson :=
  ⟨Stamps.textsDiffer_of_standard, reports_tell_objects Stamps.textsDiffer_of_standard⟩

-- The empty key and one that reads like a path have paths of their own.
example :
    let space : Space := { metadata := { name := "a" }, tier := "base" }
    let labels := LabelMap.empty.insert "" "x"
    (Diff.report { space with metadata.labels := labels }.toJson
        { space with metadata.labels := (labels.insert "" "y").insert "b.c[0]" "z" }.toJson).map
      Change.place = ["metadata.labels.", "metadata.labels.b.c[0]"] := by
  rfl

end Eventually
