import Eventually.Proofs.Diff.Path

namespace Eventually

namespace Change

-- The value of a field or an item that is to be put in here, or under one step from here.
def newHere? : Change Diff.Position → Option Json
  | added [] value => some value
  | _ => none

def newField? : Change Diff.Position → Option (String × Json)
  | added [.key key] value => some (key, value)
  | _ => none

def newItem? : Change Diff.Position → Option (Nat × Json)
  | added [.index index] value => some (index, value)
  | _ => none

end Change

namespace Diff

-- What becomes of a value that the changes lie around: it is replaced, removed or kept.
def settle (cs : List (Change Position)) (kept : Json) : Option Json :=
  match cs.find? fun c => c.place.isEmpty with
  | some (.changed _ _ value) => some value
  | some (.removed _ _) => none
  | _ => some kept

def putFields (fields added : List (String × Json)) : List (String × Json) :=
  added.foldr (fun field sorted => Entries.insert field.1 field.2 sorted) fields

def putItems (items : List Json) (added : List (Nat × Json)) : List Json :=
  added.foldl (fun items new => items.insertIdx new.1 new.2) items

-- All places are places in the document as it was, so every part gets the changes behind its step.
mutual

def inside : Json → List (Change Position) → Json
  | .object fields, cs =>
      .object (putFields (insideFields fields cs) (cs.filterMap Change.newField?))
  | .array items, cs => .array (putItems (insideItems 0 items cs) (cs.filterMap Change.newItem?))
  | document, _ => document

def insideFields : List (String × Json) → List (Change Position) → List (String × Json)
  | [], _ => []
  | (key, value) :: rest, cs =>
      let cs' := below (.key key) cs
      ((settle cs' (inside value cs')).toList.map fun kept => (key, kept)) ++ insideFields rest cs

def insideItems (index : Nat) : List Json → List (Change Position) → List Json
  | [], _ => []
  | item :: rest, cs =>
      let cs' := below (.index index) cs
      (settle cs' (inside item cs')).toList ++ insideItems (index + 1) rest cs

end

-- The document after the changes, none if it is itself removed.
def patch (document : Json) (cs : List (Change Position)) : Option Json :=
  settle cs (inside document cs)

theorem insideFields_cons (key : String) (value : Json) (rest : List (String × Json))
    (cs : List (Change Position)) :
    insideFields ((key, value) :: rest) cs =
      ((patch value (below (.key key) cs)).toList.map fun kept => (key, kept)) ++
        insideFields rest cs := rfl

theorem insideItems_cons (index : Nat) (item : Json) (rest : List Json)
    (cs : List (Change Position)) :
    insideItems index (item :: rest) cs =
      (patch item (below (.index index) cs)).toList ++ insideItems (index + 1) rest cs := rfl

theorem settle_eq_some {cs : List (Change Position)} (hne : ∀ c ∈ cs, c.place ≠ []) (kept : Json) :
    settle cs kept = some kept := by
  have hnone : cs.find? (fun c => c.place.isEmpty) = none :=
    List.find?_eq_none.mpr fun c hc => by simpa using hne c hc
  rw [settle, hnone]

-- A comparison puts in what is missing below it, never itself.
theorem newHere?_changes (actual expected : Json) :
    ∀ c ∈ changes actual expected, c.newHere? = none := by
  intro c hc
  by_cases halike : actual.Alike expected
  · have hne := place_ne_nil halike c hc
    cases c with
    | added place value =>
        cases place with
        | nil => exact absurd rfl hne
        | cons => rfl
    | _ => rfl
  · rw [changes_of_not_alike halike] at hc
    split at hc
    · cases hc
    · rw [List.mem_singleton.mp hc]
      rfl

section Objects

variable (cs : List (Change Position))

theorem key_of_mem_insideFields {fields : List (String × Json)} {entry : String × Json}
    (hentry : entry ∈ insideFields fields cs) : ∃ value, (entry.1, value) ∈ fields := by
  induction fields with
  | nil => cases hentry
  | cons head rest ih =>
      rw [insideFields_cons] at hentry
      rcases List.mem_append.mp hentry with hentry | hentry
      · obtain ⟨kept, _, rfl⟩ := List.mem_map.mp hentry
        exact ⟨head.2, List.mem_cons_self⟩
      · obtain ⟨value, hmem⟩ := ih hentry
        exact ⟨value, List.mem_cons_of_mem _ hmem⟩

theorem insideFields_ordered {fields : List (String × Json)} (hordered : Entries.Ordered fields) :
    Entries.Ordered (insideFields fields cs) := by
  induction fields with
  | nil => exact List.Pairwise.nil
  | cons head rest ih =>
      obtain ⟨key, value⟩ := head
      obtain ⟨hhead, hrest⟩ := List.pairwise_cons.mp hordered
      have hlater : ∀ entry ∈ insideFields rest cs, key < entry.1 := by
        intro entry hentry
        obtain ⟨later, hmem⟩ := key_of_mem_insideFields cs hentry
        exact hhead (entry.1, later) hmem
      rw [insideFields_cons]
      cases patch value (below (.key key) cs) with
      | none => exact ih hrest
      | some kept => exact List.pairwise_cons.mpr ⟨hlater, ih hrest⟩

theorem find?_insideFields (key : String) {fields : List (String × Json)}
    (hordered : Entries.Ordered fields) :
    Entries.find? key (insideFields fields cs) =
      (Entries.find? key fields).bind fun value => patch value (below (.key key) cs) := by
  induction fields with
  | nil => rfl
  | cons head rest ih =>
      obtain ⟨k, value⟩ := head
      obtain ⟨hhead, hrest⟩ := List.pairwise_cons.mp hordered
      rw [insideFields_cons]
      by_cases hk : k = key
      · subst hk
        have hnone : Entries.find? k rest = none := Entries.find?_eq_none_of_forall_lt hhead
        cases hkept : patch value (below (.key k) cs) with
        | none => simp [Entries.find?, hkept, ih hrest, hnone]
        | some kept => simp [Entries.find?, hkept]
      · cases hkept : patch value (below (.key k) cs) with
        | none => simp [Entries.find?, hk, ih hrest]
        | some kept => simp [Entries.find?, hk, ih hrest]

-- A field that is put in under a key is one that is put in behind that key.
theorem newHere?_below_key (key : String) (c : Change Position) :
    (below (.key key) [c]).findSome? Change.newHere? =
      (c.newField?.filter fun field => field.1 = key).map Prod.snd := by
  cases c with
  | added place value =>
      match place with
      | [] => rfl
      | [.key k] => by_cases hk : k = key <;> simp [below, Change.place, Change.map,
          Change.newField?, Change.newHere?, Option.filter, hk]
      | [.index _] => rfl
      | first :: second :: rest =>
          by_cases hfirst : first = .key key <;> simp [below, Change.place, Change.map,
            Change.newField?, Change.newHere?, hfirst]
  | removed place value =>
      by_cases hplace : place.head? = some (.key key) <;>
        simp [below, Change.place, Change.map, Change.newField?, Change.newHere?, hplace]
  | changed place actual expected =>
      by_cases hplace : place.head? = some (.key key) <;>
        simp [below, Change.place, Change.map, Change.newField?, Change.newHere?, hplace]

theorem find?_newFields (key : String) :
    Entries.find? key (cs.filterMap Change.newField?) =
      (below (.key key) cs).findSome? Change.newHere? := by
  induction cs with
  | nil => rfl
  | cons c rest ih =>
      have hsplit : below (.key key) (c :: rest) = below (.key key) [c] ++ below (.key key) rest :=
        below_append (.key key) [c] rest
      rw [hsplit, List.findSome?_append, newHere?_below_key, ← ih, List.filterMap_cons]
      cases c.newField? with
      | none => rfl
      | some field =>
          obtain ⟨k, value⟩ := field
          by_cases hk : k = key <;> simp [Entries.find?, Option.filter, hk]

end Objects

section Arrays

theorem newItems_under (index : Nat) {cs : List (Change Position)}
    (hnone : ∀ c ∈ cs, c.newHere? = none) :
    (under (.index index) cs).filterMap Change.newItem? = [] := by
  refine List.filterMap_eq_nil_iff.mpr fun c hc => ?_
  obtain ⟨d, hd, rfl⟩ := List.mem_map.mp hc
  cases d with
  | added place value =>
      cases place with
      | nil => cases hnone _ hd
      | cons => rfl
  | _ => rfl

theorem newItems_itemChanges (start : Nat) (actual expected : List Json) :
    (itemChanges start actual expected).filterMap Change.newItem? =
      (addedItems (start + actual.length) (expected.drop actual.length)).filterMap
        Change.newItem? := by
  induction actual generalizing start expected with
  | nil => rfl
  | cons item rest ih =>
      have hgroup : ∀ c ∈ partChanges (some item) expected.head?, c.newHere? = none := by
        cases expected with
        | nil => exact List.forall_mem_singleton.mpr rfl
        | cons other others => exact newHere?_changes item other
      rw [itemChanges_eq, List.filterMap_append, List.head?_cons, newItems_under start hgroup,
        List.nil_append, List.tail_cons, ih, List.drop_tail, List.length_cons]
      congr 2
      omega

theorem putItems_addedItems (items added : List Json) :
    putItems items ((addedItems items.length added).filterMap Change.newItem?) =
      items ++ added := by
  induction added generalizing items with
  | nil => exact (List.append_nil items).symm
  | cons item rest ih =>
      have hrest := ih (items ++ [item])
      rw [List.length_append, List.length_singleton, List.append_assoc] at hrest
      simp only [addedItems, List.filterMap_cons, Change.newItem?, putItems, List.foldl_cons,
        List.insertIdx_length_self] at hrest ⊢
      exact hrest

theorem insideItems_changes (start : Nat) (actual expected : List Json)
    (cs : List (Change Position))
    (hbelow : ∀ offset < actual.length, below (.index (start + offset)) cs =
      partChanges actual[offset]? expected[offset]?)
    (hparts : ∀ item ∈ actual, ∀ other ∈ expected,
      (patch item (changes item other)).map Json.canonical = some other.canonical) :
    (insideItems start actual cs).map Json.canonical =
      (expected.take actual.length).map Json.canonical := by
  induction actual generalizing start expected with
  | nil => rfl
  | cons item rest ih =>
      obtain ⟨hitem, hrest⟩ := List.forall_mem_cons.mp hparts
      have hfirst := hbelow 0 (by simp)
      have hlater : ∀ offset < rest.length, below (.index (start + 1 + offset)) cs =
          partChanges rest[offset]? expected.tail[offset]? := by
        intro offset hlt
        have hnext := hbelow (offset + 1) (by simpa using hlt)
        rw [List.getElem?_tail, Nat.add_right_comm, ← Nat.add_assoc] at *
        exact hnext
      have hparts' : ∀ item ∈ rest, ∀ other ∈ expected.tail,
          (patch item (changes item other)).map Json.canonical = some other.canonical :=
        fun item hitem other hother => hrest item hitem other (List.mem_of_mem_tail hother)
      rw [insideItems_cons, List.map_append, ih (start + 1) expected.tail hlater hparts']
      rw [Nat.add_zero] at hfirst
      rw [hfirst]
      cases expected with
      | nil =>
          have hremoved : patch item (partChanges (some item) none) = none := rfl
          simp [hremoved]
      | cons other others =>
          have hpart := hitem other List.mem_cons_self
          simp only [List.getElem?_cons_zero, partChanges]
          cases hkept : patch item (changes item other) with
          | none => simp [hkept] at hpart
          | some kept =>
              rw [hkept, Option.map_some, Option.some.injEq] at hpart
              simp [hpart]

end Arrays

theorem patch_objects {actual expected : List (String × Json)}
    (hactual : Entries.Ordered actual) (hexpected : Entries.Ordered expected)
    (hparts : ∀ key value other, Entries.find? key actual = some value →
      Entries.find? key expected = some other →
      (patch value (changes value other)).map Json.canonical = some other.canonical) :
    (patch (.object actual) (changes (.object actual) (.object expected))).map Json.canonical =
      some (Json.object expected).canonical := by
  rw [patch, settle_eq_some (place_ne_nil .objects), Option.map_some, Option.some.injEq, inside,
    Json.canonical, Json.canonical, Json.object.injEq, Json.canonicalFields_eq_map,
    Json.canonicalFields_eq_map]
  generalize hcs : changes (.object actual) (.object expected) = cs
  have hinside := insideFields_ordered cs hactual
  have hput : Entries.Ordered (putFields (insideFields actual cs)
      (cs.filterMap Change.newField?)) := Entries.foldr_insert_ordered _ hinside
  refine Entries.ext (hput.map _) (hexpected.map _) fun key => ?_
  rw [Entries.find?_map, Entries.find?_map, putFields, Entries.find?_foldr_insert,
    find?_newFields, find?_insideFields cs key hactual, ← hcs,
    below_key actual expected key hactual hexpected]
  cases hvalue : Entries.find? key actual with
  | none => cases Entries.find? key expected <;> rfl
  | some value =>
      cases hother : Entries.find? key expected with
      | none => rfl
      | some other =>
          have hnew : (changes value other).findSome? Change.newHere? = none :=
            List.findSome?_eq_none_iff.mpr (newHere?_changes value other)
          rw [partChanges, hnew, Option.none_or, Option.bind_some, Option.map_some]
          exact hparts key value other hvalue hother

theorem patch_arrays {actual expected : List Json}
    (hparts : ∀ item ∈ actual, ∀ other ∈ expected,
      (patch item (changes item other)).map Json.canonical = some other.canonical) :
    (patch (.array actual) (changes (.array actual) (.array expected))).map Json.canonical =
      some (Json.array expected).canonical := by
  have hinside := insideItems_changes 0 actual expected (itemChanges 0 actual expected)
    (fun offset _ => below_itemChanges 0 offset actual expected) hparts
  rw [patch, settle_eq_some (place_ne_nil .arrays), Option.map_some, Option.some.injEq, inside,
    Json.canonical, Json.canonical, Json.array.injEq, Json.canonicalItems_eq_map,
    Json.canonicalItems_eq_map]
  change (putItems (insideItems 0 actual (itemChanges 0 actual expected))
    ((itemChanges 0 actual expected).filterMap Change.newItem?)).map _ = _
  generalize insideItems 0 actual (itemChanges 0 actual expected) = items at hinside ⊢
  rw [newItems_itemChanges, Nat.zero_add]
  rcases Nat.le_total expected.length actual.length with hle | hle
  · rw [List.drop_of_length_le hle]
    rw [List.take_of_length_le hle] at hinside
    exact hinside
  · have hlength : items.length = actual.length := by
      have hmap := congrArg List.length hinside
      rwa [List.length_map, List.length_map, List.length_take, Nat.min_eq_left hle] at hmap
    rw [← hlength] at hinside ⊢
    rw [putItems_addedItems, List.map_append, hinside, ← List.map_append, List.take_append_drop]

-- Patching a document with its difference to another gives that other one.
theorem patch_changes {actual expected : Json} (hactual : actual.Ordered)
    (hexpected : expected.Ordered) :
    (patch actual (changes actual expected)).map Json.canonical = some expected.canonical := by
  induction actual using Json.induct generalizing expected with
  | whole actual ih =>
      by_cases halike : actual.Alike expected
      · cases halike with
        | objects =>
            refine patch_objects hactual.1 hexpected.1 fun key value other hvalue hother => ?_
            have hvalueOrdered : value.Ordered := @Json.Ordered.part _ _ hactual (.key key) hvalue
            have hotherOrdered : other.Ordered := @Json.Ordered.part _ _ hexpected (.key key) hother
            exact ih (.key key) value hvalue hvalueOrdered hotherOrdered
        | arrays =>
            refine patch_arrays fun item hitem other hother => ?_
            obtain ⟨index, hindex⟩ := List.getElem?_of_mem hitem
            exact ih (.index index) item hindex ((Json.orderedItems_iff _).mp hactual item hitem)
              ((Json.orderedItems_iff _).mp hexpected other hother)
      · rw [changes_of_not_alike halike]
        split
        · rename_i hsame
          have hkept : patch actual [] = some actual := by
            cases actual with
            | object => cases expected <;> first | exact absurd .objects halike | cases hsame
            | array => cases expected <;> first | exact absurd .arrays halike | cases hsame
            | _ => rfl
          rw [hkept, Option.map_some, (Json.beq_iff actual expected).mp hsame]
        · rfl

end Diff

end Eventually
