import Eventually.Diff.Path
import Eventually.Proofs.Diff.Places

namespace Eventually

namespace Diff

-- A key that a path shows without leaving doubt where it begins and ends.
def PlainKey (key : String) : Prop := key ≠ "" ∧ '.' ∉ key.toList ∧ '[' ∉ key.toList

instance (key : String) : Decidable (PlainKey key) :=
  inferInstanceAs (Decidable (key ≠ "" ∧ '.' ∉ key.toList ∧ '[' ∉ key.toList))

def Step.Plain : Step → Prop
  | .key name => PlainKey name
  | .index _ => True

end Diff

namespace Json

mutual

-- All keys at every depth are plain.
def PlainKeys : Json → Prop
  | array items => PlainItems items
  | object fields => PlainFields fields
  | _ => True

def PlainItems : List Json → Prop
  | [] => True
  | item :: rest => PlainKeys item ∧ PlainItems rest

def PlainFields : List (String × Json) → Prop
  | [] => True
  | (key, value) :: rest => Diff.PlainKey key ∧ PlainKeys value ∧ PlainFields rest

end

theorem plainItems_iff (items : List Json) : PlainItems items ↔ ∀ item ∈ items, PlainKeys item := by
  induction items with
  | nil => simp [PlainItems]
  | cons item rest ih => simp [PlainItems, ih]

theorem plainFields_iff (fields : List (String × Json)) :
    PlainFields fields ↔ ∀ field ∈ fields, Diff.PlainKey field.1 ∧ PlainKeys field.2 := by
  induction fields with
  | nil => simp [PlainFields]
  | cons field rest ih => simp [PlainFields, ih, and_assoc]

theorem PlainKeys.part {document part : Json} (hplain : document.PlainKeys) {step : Diff.Step}
    (hpart : document.part? step = some part) : step.Plain ∧ part.PlainKeys := by
  cases document <;> cases step <;> simp only [part?, reduceCtorEq] at hpart
  · exact ⟨trivial, (plainItems_iff _).mp hplain part (List.mem_of_getElem? hpart)⟩
  · exact (plainFields_iff _).mp hplain (_, part) (Entries.mem_of_find? hpart)

theorem PlainKeys.allPlaces {document : Json} (hplain : document.PlainKeys) :
    document.AllPlaces fun position => ∀ step ∈ position, step.Plain := by
  induction document using Json.induct with
  | whole document ih =>
      refine allPlaces_of_parts (List.forall_mem_nil _) fun step part hpart => ?_
      obtain ⟨hstep, hrest⟩ := hplain.part hpart
      exact (ih step part hpart hrest).imp fun _ hsteps => List.forall_mem_cons.mpr ⟨hstep, hsteps⟩

end Json

namespace Diff

-- Each step of a place is a key of one of the documents, or an index.
theorem changes_places_plain {actual expected : Json} (hordered : actual.Ordered)
    (hordered' : expected.Ordered) (hactual : actual.PlainKeys) (hexpected : expected.PlainKeys) :
    ∀ c ∈ changes actual expected, ∀ step ∈ c.place, step.Plain := fun c hc =>
  (changes_places hordered hordered' c hc).elim (hactual.allPlaces c.place)
    (hexpected.allPlaces c.place)

-- A path as far as it has been read: the steps that are complete, and the one that is still open.
structure Reading where
  done : Position
  current : Option Step

namespace Reading

def start : Reading := ⟨[], none⟩

def finish (r : Reading) : Position := r.done ++ r.current.toList

-- A bracket or a point ends the step before it. A closing bracket ends an index, and in a key it is
-- a letter like others.
def next (r : Reading) (c : Char) : Reading :=
  if c = '[' then ⟨r.finish, some (.index 0)⟩
  else if c = '.' then ⟨r.finish, some (.key "")⟩
  else
    match r.current with
    | some (.index count) =>
        if c = ']' then ⟨r.finish, none⟩
        else ⟨r.done, some (.index (Nat.ofDigitChars 10 [c] count))⟩
    | some (.key name) => ⟨r.done, some (.key (name.push c))⟩
    | none => ⟨r.done, some (.key (String.singleton c))⟩

def ofText (path : String) : Reading := path.toList.foldl next start

theorem foldl_next_key (done : Position) (name : String) (letters : List Char)
    (hpoint : '.' ∉ letters) (hbracket : '[' ∉ letters) :
    letters.foldl next ⟨done, some (.key name)⟩ =
      ⟨done, some (.key (name ++ String.ofList letters))⟩ := by
  induction letters generalizing name with
  | nil => simp
  | cons c rest ih =>
      rw [List.mem_cons, not_or] at hpoint hbracket
      have hnext : next ⟨done, some (.key name)⟩ c = ⟨done, some (.key (name.push c))⟩ := by
        rw [next, if_neg (Ne.symm hbracket.1), if_neg (Ne.symm hpoint.1)]
      rw [List.foldl_cons, hnext, ih _ hpoint.2 hbracket.2, String.ofList_cons,
        ← String.append_assoc, String.append_singleton]

theorem foldl_next_index (done : Position) (count : Nat) (digits : List Char)
    (hdigits : ∀ c ∈ digits, c.isDigit) :
    digits.foldl next ⟨done, some (.index count)⟩ =
      ⟨done, some (.index (Nat.ofDigitChars 10 digits count))⟩ := by
  induction digits generalizing count with
  | nil => simp
  | cons c rest ih =>
      obtain ⟨hc, hrest⟩ := List.forall_mem_cons.mp hdigits
      have hnext : next ⟨done, some (.index count)⟩ c =
          ⟨done, some (.index (Nat.ofDigitChars 10 [c] count))⟩ := by
        have hother : ∀ sign : Char, sign.isDigit = false → c ≠ sign := by
          rintro sign hsign rfl
          rw [hsign] at hc
          cases hc
        rw [next, if_neg (hother '[' rfl), if_neg (hother '.' rfl)]
        exact if_neg (hother ']' rfl)
      rw [List.foldl_cons, hnext, ih _ hrest, Nat.ofDigitChars_cons, Nat.ofDigitChars_nil,
        Nat.ofDigitChars_cons]

theorem ofText_append (path more : String) :
    ofText (path ++ more) = more.toList.foldl next (ofText path) := by
  rw [ofText, ofText, String.toList_append, List.foldl_append]

-- The first key of a path stands there without a point.
theorem ofText_key {name : String} (hname : PlainKey name) :
    ofText name = ⟨[], some (.key name)⟩ := by
  obtain ⟨hne, hpoint, hbracket⟩ := hname
  cases hletters : name.toList with
  | nil => exact absurd (String.toList_eq_nil_iff.mp hletters) hne
  | cons c rest =>
      rw [hletters, List.mem_cons, not_or] at hpoint hbracket
      have hnext : next start c = ⟨[], some (.key (String.singleton c))⟩ := by
        rw [next, if_neg (Ne.symm hbracket.1), if_neg (Ne.symm hpoint.1)]
        rfl
      have hwhole : String.singleton c ++ String.ofList rest = name := by
        rw [← String.ofList_cons, ← hletters, String.ofList_toList]
      rw [ofText, hletters, List.foldl_cons, hnext, foldl_next_key _ _ _ hpoint.2 hbracket.2,
        hwhole]

theorem foldl_next_index_text (r : Reading) (count : Nat) :
    ("[" ++ toString count ++ "]").toList.foldl next r = ⟨r.finish ++ [.index count], none⟩ := by
  have hdigits : ∀ c ∈ Nat.toDigits 10 count, c.isDigit := fun c hc =>
    Nat.isDigit_of_mem_toDigits (by omega) (by omega) hc
  have hvalue : Nat.ofDigitChars 10 (Nat.toDigits 10 count) 0 = count :=
    Nat.ofDigitChars_toDigits (by omega) (by omega)
  have hlist : ("[" ++ toString count ++ "]").toList = '[' :: (Nat.toDigits 10 count ++ [']']) := by
    rw [Nat.toString_eq_repr, String.toList_append, String.toList_append, Nat.toList_repr]
    rfl
  have hopen : next r '[' = ⟨r.finish, some (.index 0)⟩ := rfl
  rw [hlist, List.foldl_cons, hopen, List.foldl_append, foldl_next_index _ _ _ hdigits, hvalue]
  rfl

theorem finish_ofText_extend (path : String) (step : Step) (hstep : step.Plain) :
    (ofText (step.extend path)).finish = (ofText path).finish ++ [step] := by
  cases step with
  | index count =>
      have htext : Step.extend path (.index count) = path ++ ("[" ++ toString count ++ "]") := by
        rw [Step.extend, String.append_assoc, String.append_assoc, String.append_assoc]
      rw [htext, ofText_append, foldl_next_index_text, finish, Option.toList_none, List.append_nil]
  | key name =>
      rw [Step.extend]
      split
      · rename_i hempty
        rw [String.isEmpty_iff.mp hempty, ofText_key hstep]
        rfl
      · have hpoint : next (ofText path) '.' = ⟨(ofText path).finish, some (.key "")⟩ := rfl
        have hdot : ".".toList.foldl next (ofText path) = next (ofText path) '.' := rfl
        rw [ofText_append, ofText_append, hdot, hpoint,
          foldl_next_key _ _ _ hstep.2.1 hstep.2.2, String.empty_append, String.ofList_toList]
        rfl

end Reading

def Position.ofPath (path : String) : Position := (Reading.ofText path).finish

-- Plain keys make paths uniquely decodable, although nothing in them is escaped.
theorem Position.ofPath_path {position : Position} (hplain : ∀ step ∈ position, step.Plain) :
    ofPath position.path = position := by
  have hread : ∀ path : String, (Reading.ofText (position.foldl Step.extend path)).finish =
      (Reading.ofText path).finish ++ position := by
    induction position with
    | nil => exact fun path => (List.append_nil _).symm
    | cons step rest ih =>
        intro path
        obtain ⟨hstep, hrest⟩ := List.forall_mem_cons.mp hplain
        rw [List.foldl_cons, ih hrest, Reading.finish_ofText_extend path step hstep,
          List.append_assoc, List.singleton_append]
  exact hread ""

end Diff

end Eventually
