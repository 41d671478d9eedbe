import Eventually.Proofs.Resource.Document
import Eventually.Proofs.Resource.Standard

namespace Eventually

namespace Json

-- Every value is read back from the document it is written as.
def ReadsBack (write : α → Json) (read? : Json → Option α) : Prop :=
  ∀ value, read? (write value) = some value

section

variable {write : α → Json} {read? : Json → Option α} {fields : List (String × Json)}
  {name : String}

theorem ReadsBack.list (hback : ReadsBack write read?) :
    ReadsBack (fun values => array (values.map write)) (listOf? read?) := by
  intro values
  exact Text.mapM_map_eq_some hback values

theorem string_readsBack : ReadsBack string string? := fun _ => rfl

theorem bool_readsBack : ReadsBack bool bool? := fun _ => rfl

theorem int64_readsBack : ReadsBack (fun value : Int64 => int value.toInt) int64? := by
  intro value
  change (if _ then _ else _) = _
  rw [if_pos ⟨value.minValue_le_toInt, value.toInt_le⟩, Int64.ofInt_toInt]

-- What is written as a text is read back with it.
theorem ReadsBack.text {text : α → String} {ofText? : String → Option α}
    (htext : ∀ value, ofText? (text value) = some value) :
    ReadsBack (fun value => string (text value)) fun document => document.string?.bind ofText? :=
  htext

theorem string_ne_null (text : α → String) (value : α) : string (text value) ≠ null := nofun

-- A record is read field by field, in any order of the fields.
theorem required_of_find? {document : Json} {value : α}
    (hfind : Entries.find? name fields.reverse = some document)
    (hread : read? document = some value) :
    required (Entries.ofList fields) name read? = some value := by
  rw [required, Entries.find?_ofList, hfind, Option.bind_some, hread]

theorem defaulted_of_find? {document : Json} {value other : α}
    (hfind : Entries.find? name fields.reverse = some document)
    (hread : read? document = some value) :
    defaulted (Entries.ofList fields) name other read? = some value := by
  simp only [defaulted, Entries.find?_ofList, hfind, hread]

-- What is left out if there is nothing to it has a default that nothing to it means too.
theorem ReadsBack.unless (hback : ReadsBack write read?) (p : α → Prop) [DecidablePred p]
    {value other : α} (hother : p value → value = other)
    (hfind : Entries.find? name fields.reverse = if p value then none else some (write value)) :
    defaulted (Entries.ofList fields) name other read? = some value := by
  by_cases hvalue : p value
  · rw [if_pos hvalue] at hfind
    simp only [Json.defaulted, Entries.find?_ofList, hfind, hother hvalue]
  · rw [if_neg hvalue] at hfind
    exact defaulted_of_find? hfind (hback value)

theorem ReadsBack.omitted (hback : ReadsBack write read?) {values : List α}
    (hfind : Entries.find? name fields.reverse =
      if values = [] then none else some (array (values.map write))) :
    defaulted (Entries.ofList fields) name [] (listOf? read?) = some values :=
  hback.list.unless (· = []) id hfind

-- Null stands for an absent value, so a present one must not be written so.
theorem ReadsBack.optional (hback : ReadsBack write read?) (hnull : ∀ value, write value ≠ null)
    {value? : Option α} (hfind : Entries.find? name fields.reverse = value?.map write) :
    Json.optional (Entries.ofList fields) name read? = some value? := by
  cases value? with
  | none => simp only [Json.optional, Entries.find?_ofList, hfind, Option.map_none]
  | some value =>
      have hvalue := hnull value
      simp only [Json.optional, Entries.find?_ofList, hfind, Option.map_some, hback value]

end

end Json

namespace Json

-- Reading a document and writing again what has been read.
def rewrite (write : α → Json) (read? : Json → Option α) (document : Json) : Option Json :=
  (read? document).map write

-- Values outlast writing: each is read back, and a document that has been rewritten once holds the
-- same value and is not changed by rewriting any more.
structure Lasting (write : α → Json) (read? : Json → Option α) : Prop where
  read_write : ∀ value, read? (write value) = some value
  read_rewritten : ∀ document next, rewrite write read? document = some next →
    read? next = read? document
  rewrite_rewritten : ∀ document next, rewrite write read? document = some next →
    rewrite write read? next = some next

theorem ReadsBack.lasting {write : α → Json} {read? : Json → Option α}
    (hback : ReadsBack write read?) : Lasting write read? := by
  have hnext (document next : Json) (hrewrite : rewrite write read? document = some next) :
      ∃ value, read? document = some value ∧ write value = next :=
    Option.map_eq_some_iff.mp hrewrite
  constructor
  case read_write => exact hback
  case read_rewritten =>
    intro document next hrewrite
    obtain ⟨value, hread, rfl⟩ := hnext document next hrewrite
    rw [hback, hread]
  case rewrite_rewritten =>
    intro document next hrewrite
    obtain ⟨value, hread, rfl⟩ := hnext document next hrewrite
    rw [rewrite, hback, Option.map_some]

end Json

namespace LabelMap

theorem toJson_readsBack : Json.ReadsBack toJson ofJson? := by
  intro labels
  have hentries : (labels.entries.map fun entry => (entry.1, Json.string entry.2)).mapM entry? =
      some labels.entries := by
    refine Text.mapM_map_eq_some (fun entry => ?_) labels.entries
    rfl
  simp only [toJson, ofJson?, hentries, Option.map_some, Option.some.injEq]
  rw [mk.injEq]
  exact Entries.ofList_of_ordered labels.ordered

end LabelMap

theorem ConditionStatus.toJson_readsBack : Json.ReadsBack toJson ofJson? := by
  intro status
  cases status <;> rfl

section

variable [Stamps]

namespace Metadata

theorem toJson_readsBack (hstamps : Stamps.TextsReadBack) : Json.ReadsBack toJson ofJson? := by
  intro m
  simp only [ofJson?, toJson, Json.ofFields, Json.record?, Option.bind_eq_bind,
    Option.bind_eq_some_iff]
  refine ⟨_, rfl, m.name, Json.required_of_find? ?_ (Json.string_readsBack _),
    m.scope, Json.string_readsBack.optional (Json.string_ne_null _) ?_,
    m.labels, LabelMap.toJson_readsBack.unless (·.entries = []) ?nolabels ?_,
    m.annotations, LabelMap.toJson_readsBack.unless (·.entries = []) ?noannotations ?_,
    m.finalizers, Json.string_readsBack.omitted ?_,
    m.uid, (Json.ReadsBack.text hstamps.uid).optional (Json.string_ne_null _) ?_,
    m.generation, Json.defaulted_of_find? ?_ (Json.int64_readsBack _),
    m.created, (Json.ReadsBack.text hstamps.instant).optional (Json.string_ne_null _) ?_,
    rfl⟩
  case nolabels => exact (LabelMap.eq_of_nil m.labels .empty · rfl)
  case noannotations => exact (LabelMap.eq_of_nil m.annotations .empty · rfl)
  all_goals simp [Entries.find?_append, Entries.find?]

end Metadata

namespace Condition

theorem toJson_readsBack (hstamps : Stamps.TextsReadBack) : Json.ReadsBack toJson ofJson? := by
  intro c
  simp only [ofJson?, toJson, Json.ofFields, Json.record?, Option.bind_eq_bind,
    Option.bind_eq_some_iff]
  refine ⟨_, rfl, c.type, Json.required_of_find? ?_ (Json.string_readsBack _),
    c.status, Json.required_of_find? ?_ (ConditionStatus.toJson_readsBack _),
    c.reason, Json.string_readsBack.optional (Json.string_ne_null _) ?_,
    c.message, Json.string_readsBack.optional (Json.string_ne_null _) ?_,
    c.changed, (Json.ReadsBack.text hstamps.instant).optional (Json.string_ne_null _) ?_,
    rfl⟩
  all_goals simp [Entries.find?_append, Entries.find?]

theorem listToJson_readsBack (hstamps : Stamps.TextsReadBack) :
    Json.ReadsBack listToJson listOfJson? := (toJson_readsBack hstamps).list

end Condition

namespace Space

theorem specOfJson?_specToJson (space : Space) :
    specOfJson? space.specToJson = some (space.tier, space.targetCluster) := by
  simp only [specOfJson?, specToJson, Json.ofFields, Json.record?, Option.bind_eq_bind,
    Option.bind_eq_some_iff]
  refine ⟨_, rfl, space.tier, Json.required_of_find? ?_ (Json.string_readsBack _),
    space.targetCluster, Json.string_readsBack.optional (Json.string_ne_null _) ?_, rfl⟩
  all_goals simp [Entries.find?_append, Entries.find?]

theorem statusOfJson?_statusToJson (hstamps : Stamps.TextsReadBack) (space : Space) :
    statusOfJson? space.statusToJson =
      some (space.landedCluster, space.provisioned, space.conditions) := by
  simp only [statusOfJson?, statusToJson, Json.ofFields, Json.record?, Option.bind_eq_bind,
    Option.bind_eq_some_iff]
  refine ⟨_, rfl, space.landedCluster,
    Json.string_readsBack.optional (Json.string_ne_null _) ?_,
    space.provisioned, Json.string_readsBack.omitted ?_,
    space.conditions, Json.defaulted_of_find? ?_ (Condition.listToJson_readsBack hstamps _), rfl⟩
  all_goals simp [Entries.find?_append, Entries.find?]

theorem toJson_readsBack (hstamps : Stamps.TextsReadBack) : Json.ReadsBack toJson ofJson? := by
  intro space
  simp only [ofJson?, toJson, Json.ofFields, Json.record?, Option.bind_eq_bind,
    Option.bind_eq_some_iff]
  refine ⟨_, rfl, space.metadata, Json.required_of_find? ?_ (Metadata.toJson_readsBack hstamps _),
    _, Json.required_of_find? ?_ space.specOfJson?_specToJson,
    _, Json.defaulted_of_find? ?_ (statusOfJson?_statusToJson hstamps space), rfl⟩
  all_goals simp [Entries.find?]

end Space

namespace UserSignup

theorem specOfJson?_specToJson (signup : UserSignup) :
    specOfJson? signup.specToJson = some (signup.username, signup.approved) := by
  simp only [specOfJson?, specToJson, Json.ofFields, Json.record?, Option.bind_eq_bind,
    Option.bind_eq_some_iff]
  refine ⟨_, rfl, signup.username, Json.required_of_find? ?_ (Json.string_readsBack _),
    signup.approved, Json.defaulted_of_find? ?_ (Json.bool_readsBack _), rfl⟩
  all_goals simp [Entries.find?]

theorem statusOfJson?_statusToJson (hstamps : Stamps.TextsReadBack) (signup : UserSignup) :
    statusOfJson? signup.statusToJson = some (signup.compliantUsername, signup.conditions) := by
  simp only [statusOfJson?, statusToJson, Json.ofFields, Json.record?, Option.bind_eq_bind,
    Option.bind_eq_some_iff]
  refine ⟨_, rfl, signup.compliantUsername,
    Json.string_readsBack.optional (Json.string_ne_null _) ?_,
    signup.conditions, Json.defaulted_of_find? ?_ (Condition.listToJson_readsBack hstamps _), rfl⟩
  all_goals simp [Entries.find?]

theorem toJson_readsBack (hstamps : Stamps.TextsReadBack) : Json.ReadsBack toJson ofJson? := by
  intro signup
  simp only [ofJson?, toJson, Json.ofFields, Json.record?, Option.bind_eq_bind,
    Option.bind_eq_some_iff]
  refine ⟨_, rfl, signup.metadata, Json.required_of_find? ?_ (Metadata.toJson_readsBack hstamps _),
    _, Json.required_of_find? ?_ signup.specOfJson?_specToJson,
    _, Json.defaulted_of_find? ?_ (statusOfJson?_statusToJson hstamps signup), rfl⟩
  all_goals simp [Entries.find?]

end UserSignup

-- Whatever a document has that is not written (other fields, nulls, defaults, other spellings of
-- identifiers and instants) is gone with the first rewriting.
theorem resources_outlast_writing (hstamps : Stamps.TextsReadBack) :
    Json.Lasting Metadata.toJson Metadata.ofJson? ∧
      Json.Lasting Condition.listToJson Condition.listOfJson? ∧
      Json.Lasting Space.toJson Space.ofJson? ∧
      Json.Lasting UserSignup.toJson UserSignup.ofJson? :=
  ⟨(Metadata.toJson_readsBack hstamps).lasting, (Condition.listToJson_readsBack hstamps).lasting,
    (Space.toJson_readsBack hstamps).lasting, (UserSignup.toJson_readsBack hstamps).lasting⟩

end

theorem resources_outlast_writing_of_standard :
    Stamps.TextsReadBack ∧ Json.Lasting Metadata.toJson Metadata.ofJson? ∧
      Json.Lasting Condition.listToJson Condition.listOfJson? ∧
      Json.Lasting Space.toJson Space.ofJson? ∧ Json.Lasting UserSignup.toJson UserSignup.ofJson? :=
  ⟨Stamps.textsReadBack_of_standard, resources_outlast_writing Stamps.textsReadBack_of_standard⟩

-- Of a written name, a null, a field of no record and an instant ahead of universal time, the name
-- and the instant are left.
example :
    Json.rewrite Metadata.toJson Metadata.ofJson?
        (.ofFields [("name", .string "a"), ("namespace", .null), ("owner", .bool true),
          ("creationTimestamp", .string "2024-01-02 01:30:00+02:00")]) =
      some (.ofFields [("name", .string "a"), ("generation", .int 0),
        ("creationTimestamp", .string "2024-01-01T23:30:00Z")]) := by
  rfl

end Eventually
