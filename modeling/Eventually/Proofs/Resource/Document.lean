import Eventually.Proofs.Resource.Record
import Eventually.Resource.Basic

namespace Eventually

namespace LabelMap

@[simp] theorem toJson_ordered (labels : LabelMap) : labels.toJson.Ordered := by
  refine ⟨List.pairwise_map.mpr labels.ordered, (Json.orderedFields_iff _).mpr ?_⟩
  exact List.forall_mem_map.mpr fun _ _ => trivial

theorem eq_of_nil (labels others : LabelMap) (hlabels : labels.entries = [])
    (hothers : others.entries = []) : labels = others := by
  rw [LabelMap.mk.injEq]
  exact hlabels.trans hothers.symm

theorem toJson_telling : Json.Telling toJson := by
  intro labels others hsame
  simp only [toJson, Json.canonical, Json.canonicalFields_eq_map, List.map_map,
    Json.object.injEq] at hsame
  have hentries : labels.entries = others.entries := by
    refine List.map_injective_iff.mpr (fun entry other hentry => ?_) hsame
    simpa [Prod.ext_iff] using hentry
  rw [LabelMap.mk.injEq]
  exact hentries

end LabelMap

namespace Metadata

@[simp] theorem labelField_ordered (name : String) (labels : LabelMap) :
    Json.OrderedFields (labelField name labels) := by
  unfold labelField
  split
  · trivial
  · exact ⟨labels.toJson_ordered, trivial⟩

@[simp] theorem find?_labelField (key name : String) (labels : LabelMap) :
    Entries.find? key (labelField name labels).reverse =
      if name = key ∧ labels.entries ≠ [] then some labels.toJson else none := by
  cases hentries : labels.entries <;>
    simp [labelField, LabelMap.isEmpty, hentries, Entries.find?]

end Metadata

namespace ConditionStatus

theorem toJson_telling : Json.Telling toJson := by
  intro status other hsame
  have htext : status.text = other.text := Json.string_telling hsame
  cases status <;> cases other <;> first | rfl | simp [text] at htext

end ConditionStatus

theorem Item.toJson_ordered (item : Item) : item.toJson.Ordered := Json.ofFields_ordered (by simp)

variable [Stamps]

namespace Metadata

@[simp] theorem toJson_ordered (m : Metadata) : m.toJson.Ordered :=
  Json.ofFields_ordered (by simp)

-- Metadata that are written alike. Identifiers and instants count by their texts.
structure WrittenAlike (m n : Metadata) : Prop where
  name : m.name = n.name
  scope : m.scope = n.scope
  labels : m.labels = n.labels
  annotations : m.annotations = n.annotations
  finalizers : m.finalizers = n.finalizers
  uid : m.uid.map Stamps.uidText = n.uid.map Stamps.uidText
  generation : m.generation = n.generation
  created : m.created.map Stamps.instantText = n.created.map Stamps.instantText

theorem writtenAlike_of_same {m n : Metadata} (hsame : m.toJson.canonical = n.toJson.canonical) :
    m.WrittenAlike n := by
  have hfield := Json.field_eq hsame
  simp only [List.reverse_append, List.reverse_singleton, Entries.find?_append, Entries.find?,
    find?_labelField, Json.find?_present, Json.find?_presentList] at hfield
  constructor
  case name => simpa using hfield "name"
  case scope => exact Json.string_telling.option (by simpa using hfield "namespace")
  case labels =>
    exact LabelMap.toJson_telling.unless (·.entries = []) LabelMap.eq_of_nil
      (by simpa using hfield "labels")
  case annotations =>
    exact LabelMap.toJson_telling.unless (·.entries = []) LabelMap.eq_of_nil
      (by simpa using hfield "annotations")
  case finalizers => exact Json.string_telling.omitted (by simpa using hfield "finalizers")
  case uid => exact Json.string_telling.option (by simpa [Function.comp_def] using hfield "uid")
  case generation =>
    exact Int64.toInt_inj.mp (Json.int_telling (by simpa using hfield "generation"))
  case created =>
    exact Json.string_telling.option (by simpa [Function.comp_def] using hfield "creationTimestamp")

end Metadata

namespace Condition

@[simp] theorem toJson_ordered (c : Condition) : c.toJson.Ordered :=
  Json.ofFields_ordered (by simp [ConditionStatus.toJson])

@[simp] theorem listToJson_ordered (conditions : Conditions) :
    (listToJson conditions).Ordered := Json.map_ordered toJson_ordered conditions

structure WrittenAlike (c d : Condition) : Prop where
  type : c.type = d.type
  status : c.status = d.status
  reason : c.reason = d.reason
  message : c.message = d.message
  changed : c.changed.map Stamps.instantText = d.changed.map Stamps.instantText

theorem writtenAlike_of_same {c d : Condition} (hsame : c.toJson.canonical = d.toJson.canonical) :
    c.WrittenAlike d := by
  have hfield := Json.field_eq hsame
  simp only [List.reverse_append, List.reverse_cons, List.nil_append, List.cons_append,
    Entries.find?_append, Entries.find?, Json.find?_present] at hfield
  constructor
  case type => simpa using hfield "type"
  case status => exact ConditionStatus.toJson_telling (by simpa using hfield "status")
  case reason => exact Json.string_telling.option (by simpa using hfield "reason")
  case message => exact Json.string_telling.option (by simpa using hfield "message")
  case changed =>
    exact Json.string_telling.option
      (by simpa [Function.comp_def] using hfield "lastTransitionTime")

theorem listWrittenAlike_of_same {cs ds : Conditions}
    (hsame : (listToJson cs).canonical = (listToJson ds).canonical) :
    List.Forall₂ WrittenAlike cs ds := by
  simp only [listToJson, Json.map_canonical, Json.array.injEq] at hsame
  rw [← List.forall₂_eq_eq_eq, List.forall₂_map_left_iff, List.forall₂_map_right_iff] at hsame
  exact hsame.imp fun _ _ => writtenAlike_of_same

end Condition

namespace Space

@[simp] theorem specToJson_ordered (space : Space) : space.specToJson.Ordered :=
  Json.ofFields_ordered (by simp)

@[simp] theorem statusToJson_ordered (space : Space) : space.statusToJson.Ordered :=
  Json.ofFields_ordered (by simp)

@[simp] theorem toJson_ordered (space : Space) : space.toJson.Ordered :=
  Json.ofFields_ordered (by simp)

structure WrittenAlike (a b : Space) : Prop where
  metadata : a.metadata.WrittenAlike b.metadata
  tier : a.tier = b.tier
  targetCluster : a.targetCluster = b.targetCluster
  landedCluster : a.landedCluster = b.landedCluster
  provisioned : a.provisioned = b.provisioned
  conditions : List.Forall₂ Condition.WrittenAlike a.conditions b.conditions

theorem writtenAlike_of_same {a b : Space} (hsame : a.toJson.canonical = b.toJson.canonical) :
    a.WrittenAlike b := by
  obtain ⟨hmetadata, hspec, hstatus⟩ := Json.sections_eq hsame
  have hspec := Json.field_eq hspec
  have hstatus := Json.field_eq hstatus
  simp only [List.reverse_append, List.reverse_singleton, Entries.find?_append, Entries.find?,
    Json.find?_present, Json.find?_presentList] at hspec hstatus
  constructor
  case metadata => exact Metadata.writtenAlike_of_same hmetadata
  case tier => simpa using hspec "tierName"
  case targetCluster => exact Json.string_telling.option (by simpa using hspec "targetCluster")
  case landedCluster => exact Json.string_telling.option (by simpa using hstatus "targetCluster")
  case provisioned =>
    exact Json.string_telling.omitted (by simpa using hstatus "provisionedNamespaces")
  case conditions =>
    exact Condition.listWrittenAlike_of_same (by simpa using hstatus "conditions")

end Space

namespace UserSignup

@[simp] theorem specToJson_ordered (signup : UserSignup) : signup.specToJson.Ordered :=
  Json.ofFields_ordered (by simp)

@[simp] theorem statusToJson_ordered (signup : UserSignup) : signup.statusToJson.Ordered :=
  Json.ofFields_ordered (by simp)

@[simp] theorem toJson_ordered (signup : UserSignup) : signup.toJson.Ordered :=
  Json.ofFields_ordered (by simp)

structure WrittenAlike (a b : UserSignup) : Prop where
  metadata : a.metadata.WrittenAlike b.metadata
  username : a.username = b.username
  approved : a.approved = b.approved
  compliantUsername : a.compliantUsername = b.compliantUsername
  conditions : List.Forall₂ Condition.WrittenAlike a.conditions b.conditions

theorem writtenAlike_of_same {a b : UserSignup}
    (hsame : a.toJson.canonical = b.toJson.canonical) : a.WrittenAlike b := by
  obtain ⟨hmetadata, hspec, hstatus⟩ := Json.sections_eq hsame
  have hspec := Json.field_eq hspec
  have hstatus := Json.field_eq hstatus
  simp only [List.reverse_append, List.reverse_cons, List.reverse_nil, List.nil_append,
    List.cons_append, Entries.find?, Json.find?_present] at hspec hstatus
  constructor
  case metadata => exact Metadata.writtenAlike_of_same hmetadata
  case username => simpa using hspec "username"
  case approved => simpa using hspec "approved"
  case compliantUsername =>
    exact Json.string_telling.option (by simpa using hstatus "compliantUsername")
  case conditions =>
    exact Condition.listWrittenAlike_of_same (by simpa using hstatus "conditions")

end UserSignup

-- Types whose documents have their keys in order.
class OrderedDocuments (α : Type) [Writable α] : Prop where
  ordered : ∀ (obj : α) (document : Json), Writable.write obj = .ok document → document.Ordered

instance : OrderedDocuments Metadata where
  ordered m _ hwrite := Except.ok.inj hwrite ▸ m.toJson_ordered

instance : OrderedDocuments Conditions where
  ordered conditions _ hwrite := Except.ok.inj hwrite ▸ Condition.listToJson_ordered conditions

instance : OrderedDocuments Space where
  ordered space _ hwrite := Except.ok.inj hwrite ▸ space.toJson_ordered

instance : OrderedDocuments UserSignup where
  ordered signup _ hwrite := Except.ok.inj hwrite ▸ signup.toJson_ordered

instance : OrderedDocuments Item where
  ordered item document hwrite := by
    simp only [Writable.write] at hwrite
    split at hwrite
    · cases hwrite
    · exact Except.ok.inj hwrite ▸ item.toJson_ordered

end Eventually
