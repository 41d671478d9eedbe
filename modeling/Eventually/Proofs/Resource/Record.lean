import Eventually.Json.Record
import Eventually.Proofs.Diff.Report

namespace Eventually

namespace Json

@[simp] theorem string_ordered (text : String) : (string text).Ordered := trivial

@[simp] theorem bool_ordered (value : Bool) : (bool value).Ordered := trivial

@[simp] theorem int_ordered (value : Int) : (int value).Ordered := trivial

@[simp] theorem orderedFields_nil : OrderedFields [] := trivial

@[simp] theorem orderedFields_cons (field : String × Json) (rest : List (String × Json)) :
    OrderedFields (field :: rest) ↔ field.2.Ordered ∧ OrderedFields rest := Iff.rfl

@[simp] theorem orderedFields_append (fields others : List (String × Json)) :
    OrderedFields (fields ++ others) ↔ OrderedFields fields ∧ OrderedFields others := by
  simp only [orderedFields_iff, List.forall_mem_append]

@[simp] theorem map_ordered {write : α → Json} (hwrite : ∀ value, (write value).Ordered)
    (values : List α) : (array (values.map write)).Ordered :=
  (orderedItems_iff _).mpr (List.forall_mem_map.mpr fun value _ => hwrite value)

@[simp] theorem present_ordered (name : String) {write : α → Json}
    (hwrite : ∀ value, (write value).Ordered) (value? : Option α) :
    OrderedFields (present name write value?) := by
  cases value? with
  | none => trivial
  | some value => exact ⟨hwrite value, trivial⟩

@[simp] theorem presentList_ordered (name : String) {write : α → Json}
    (hwrite : ∀ value, (write value).Ordered) (values : List α) :
    OrderedFields (presentList name write values) := by
  unfold presentList
  split
  · trivial
  · exact ⟨map_ordered hwrite values, trivial⟩

theorem ofFields_ordered {fields : List (String × Json)} (hfields : OrderedFields fields) :
    (ofFields fields).Ordered := by
  refine ⟨Entries.ofList_ordered fields, (orderedFields_iff _).mpr fun field hmem => ?_⟩
  exact (orderedFields_iff fields).mp hfields field (Entries.mem_of_mem_ofList hmem)

-- Records that are one document have the same under every key.
theorem field_eq {fields others : List (String × Json)}
    (hsame : (ofFields fields).canonical = (ofFields others).canonical) (key : String) :
    (Entries.find? key fields.reverse).map canonical =
      (Entries.find? key others.reverse).map canonical := by
  have hpart : (ofFields fields).canonical.part? (.key key) =
      (ofFields others).canonical.part? (.key key) := by rw [hsame]
  rw [part?_canonical, part?_canonical] at hpart
  simpa only [ofFields, part?, Entries.find?_ofList] using hpart

-- Fields that may be left out, as they are read from behind.

@[simp] theorem find?_present (key name : String) (write : α → Json) (value? : Option α) :
    Entries.find? key (present name write value?).reverse =
      if name = key then value?.map write else none := by
  cases value? <;> simp [present, Entries.find?]

@[simp] theorem find?_presentList (key name : String) (write : α → Json) (values : List α) :
    Entries.find? key (presentList name write values).reverse =
      if name = key ∧ values ≠ [] then some (array (values.map write)) else none := by
  cases values <;> simp [presentList, Entries.find?]

@[simp] theorem canonical_string (text : String) : (string text).canonical = string text := rfl

@[simp] theorem canonical_bool (value : Bool) : (bool value).canonical = bool value := rfl

@[simp] theorem canonical_int (value : Int) : (int value).canonical = int value := rfl

theorem map_canonical (write : α → Json) (values : List α) :
    (array (values.map write)).canonical =
      array (values.map fun value => (write value).canonical) := by
  rw [canonical, canonicalItems_eq_map, List.map_map]
  rfl

-- Different values are different documents.
def Telling (write : α → Json) : Prop := Function.Injective fun value => (write value).canonical

theorem string_telling : Telling string := fun _ _ hsame => string.inj hsame

theorem int_telling : Telling int := fun _ _ hsame => Number.int.inj (number.inj hsame)

theorem Telling.list {write : α → Json} (hwrite : Telling write) :
    Telling fun values : List α => array (values.map write) := by
  intro values others hsame
  simp only [map_canonical, array.injEq] at hsame
  exact List.map_injective_iff.mpr hwrite hsame

theorem Telling.option {write : α → Json} (hwrite : Telling write) {value? other? : Option α}
    (hsame : (value?.map write).map canonical = (other?.map write).map canonical) :
    value? = other? := by
  rw [Option.map_map, Option.map_map] at hsame
  exact Option.map_injective hwrite hsame

-- What is left out if there is nothing to it is told by being left out.
theorem Telling.unless {write : α → Json} (hwrite : Telling write) (p : α → Prop)
    [DecidablePred p] (hp : ∀ value other, p value → p other → value = other) {value other : α}
    (hsame : (if p value then none else some (write value)).map canonical =
      (if p other then none else some (write other)).map canonical) : value = other := by
  by_cases hvalue : p value <;> by_cases hother : p other
  · exact hp value other hvalue hother
  · simp [hvalue, hother] at hsame
  · simp [hvalue, hother] at hsame
  · simp only [hvalue, hother, if_false, Option.map_some, Option.some.injEq] at hsame
    exact hwrite hsame

theorem Telling.omitted {write : α → Json} (hwrite : Telling write) {values others : List α}
    (hsame : (if values = [] then none else some (array (values.map write))).map canonical =
      (if others = [] then none else some (array (others.map write))).map canonical) :
    values = others :=
  hwrite.list.unless (· = []) (fun _ _ hvalues hothers => hvalues.trans hothers.symm) hsame

-- Objects are written in three sections, and tell each of them.
theorem sections_eq {metadata metadata' spec spec' status status' : Json}
    (hsame : (ofFields [("metadata", metadata), ("spec", spec), ("status", status)]).canonical =
      (ofFields [("metadata", metadata'), ("spec", spec'), ("status", status')]).canonical) :
    metadata.canonical = metadata'.canonical ∧ spec.canonical = spec'.canonical ∧
      status.canonical = status'.canonical := by
  have hfield := field_eq hsame
  simp only [List.reverse_cons, List.reverse_nil, List.nil_append, List.cons_append,
    Entries.find?] at hfield
  refine ⟨?_, ?_, ?_⟩
  · simpa using hfield "metadata"
  · simpa using hfield "spec"
  · simpa using hfield "status"

end Json

end Eventually
