import Eventually.Store.Shelves
import Mathlib.Data.List.Nodup

namespace Eventually

namespace Shelf

@[simp]
theorem has_iff [Keyed α] {key : Key} {obj : α} : has key obj ↔ Keyed.key obj = key := beq_iff_eq

section

variable [Keyed α] {shelf : Shelf α}

-- No two places hold objects with the same key.
def KeysDistinct (shelf : Shelf α) : Prop := (shelf.objects.map Keyed.key).Nodup

instance (shelf : Shelf α) : Decidable shelf.KeysDistinct :=
  inferInstanceAs (Decidable (List.Nodup _))

theorem KeysDistinct.eq_of_key (hdistinct : shelf.KeysDistinct) (hobj : obj ∈ shelf.objects)
    (hother : other ∈ shelf.objects) (hkey : Keyed.key obj = Keyed.key other) : obj = other :=
  List.inj_on_of_nodup_map hdistinct hobj hother hkey

theorem KeysDistinct.peek?_eq_some_iff (hdistinct : shelf.KeysDistinct) (key : Key) :
    shelf.peek? key = some obj ↔ obj ∈ shelf.objects ∧ Keyed.key obj = key := by
  have hfound : ∀ found, shelf.peek? key = some found →
      found ∈ shelf.objects ∧ Keyed.key found = key := fun found hpeek =>
    ⟨List.mem_of_find?_eq_some hpeek, by simpa using List.find?_some hpeek⟩
  refine ⟨hfound obj, fun ⟨hobj, hkey⟩ => ?_⟩
  cases hpeek : shelf.peek? key with
  | none => exact absurd hkey (by simpa using List.find?_eq_none.mp hpeek obj hobj)
  | some other =>
      obtain ⟨hother, hsame⟩ := hfound other hpeek
      rw [hdistinct.eq_of_key hother hobj (hsame.trans hkey.symm)]

theorem KeysDistinct.fetch_eq_ok_iff (hdistinct : shelf.KeysDistinct) (key : Key) :
    shelf.fetch key = .ok obj ↔ obj ∈ shelf.objects ∧ Keyed.key obj = key := by
  rw [← hdistinct.peek?_eq_some_iff key, fetch]
  cases shelf.peek? key <;> simp

-- An object is in the scope of its own key.
theorem mem_listed_key (hobj : obj ∈ shelf.objects) :
    obj ∈ shelf.listed (Keyed.key obj).scope := by
  refine List.mem_filter.mpr ⟨hobj, ?_⟩
  simp only [inScope]
  split
  next name hscope => simp [hscope]
  next => rfl

theorem listed_some (shelf : Shelf α) (name : String) :
    shelf.listed (some name) =
      shelf.objects.filter fun obj => (Keyed.key obj).scope = some name :=
  List.filter_congr fun obj _ => by rw [inScope, beq_eq_decide]

theorem listed_none (shelf : Shelf α) : shelf.listed none = shelf.objects :=
  List.filter_eq_self.mpr fun _ _ => rfl

theorem mem_of_mem_listed {scope : Option String} (hobj : obj ∈ shelf.listed scope) :
    obj ∈ shelf.objects :=
  (List.mem_filter.mp hobj).1

end

section

variable [Keyed α] {key : Key} {objects before after : List α} {obj : α}

-- No object is under a key.
def Unused (key : Key) (objects : List α) : Prop := ∀ obj ∈ objects, Keyed.key obj ≠ key

theorem unused_iff : Unused key objects ↔ key ∉ objects.map Keyed.key := by
  simp only [Unused, List.mem_map, not_exists, not_and]

theorem Unused.not_has (hunused : Unused key objects) : ∀ obj ∈ objects, ¬has key obj := by
  intro obj hobj
  simpa using hunused obj hobj

theorem unused_or_exists (key : Key) (objects : List α) :
    Unused key objects ∨ ∃ before obj after,
      objects = before ++ obj :: after ∧ Keyed.key obj = key ∧ Unused key before := by
  cases hfind : objects.find? (has key) with
  | none => exact .inl fun obj hobj => by simpa using List.find?_eq_none.mp hfind obj hobj
  | some obj =>
      obtain ⟨hhas, before, after, hobjects, hbefore⟩ := List.find?_eq_some_iff_append.mp hfind
      exact .inr ⟨before, obj, after, hobjects, by simpa using hhas,
        fun other hother => by simpa [has] using hbefore other hother⟩

theorem peek?_isSome_iff {shelf : Shelf α} :
    (shelf.peek? key).isSome ↔ ¬Unused key shelf.objects := by
  simp only [peek?, List.find?_isSome, has_iff, Unused, ne_eq, not_forall, not_not,
    exists_prop]

theorem fetch_eq_notFound_iff (shelf : Shelf α) (key : Key) :
    shelf.fetch key = .error (.notFound key) ↔ Unused key shelf.objects := by
  rw [← not_iff_not, ← peek?_isSome_iff, fetch]
  cases shelf.peek? key <;> simp

-- Keys are distinct where those of the others are and none of them has the key of this one.
theorem keys_nodup_middle : ((before ++ obj :: after).map Keyed.key).Nodup ↔
    Unused (Keyed.key obj) (before ++ after) ∧ ((before ++ after).map Keyed.key).Nodup := by
  rw [List.map_append, List.map_cons, List.nodup_middle, List.nodup_cons, ← List.map_append,
    unused_iff]

theorem find?_of_unused (hunused : Unused key objects) : objects.find? (has key) = none :=
  List.find?_eq_none.mpr hunused.not_has

theorem find?_of_first (hunused : Unused key before) (hkey : Keyed.key obj = key) :
    (before ++ obj :: after).find? (has key) = some obj := by
  rw [List.find?_append, find?_of_unused hunused, Option.none_or,
    List.find?_cons_of_pos (by simpa using hkey)]

theorem find?_middle_of_ne (hne : Keyed.key obj ≠ key) :
    (before ++ obj :: after).find? (has key) = (before ++ after).find? (has key) := by
  rw [List.find?_append, List.find?_append, List.find?_cons_of_neg (by simpa using hne)]

theorem changeFirst?_of_unused (hunused : Unused key objects) (f : α → α) :
    changeFirst? key f objects = none := by
  induction objects with
  | nil => rfl
  | cons obj rest ih =>
      obtain ⟨hobj, hrest⟩ := List.forall_mem_cons.mp hunused
      rw [changeFirst?, if_neg (by simpa using hobj), ih hrest, Option.map_none]

theorem changeFirst?_of_first (hunused : Unused key before) (hkey : Keyed.key obj = key)
    (f : α → α) :
    changeFirst? key f (before ++ obj :: after) = some (before ++ f obj :: after) := by
  induction before with
  | nil => rw [List.nil_append, changeFirst?, if_pos (by simpa using hkey), List.nil_append]
  | cons other rest ih =>
      obtain ⟨hother, hrest⟩ := List.forall_mem_cons.mp hunused
      rw [List.cons_append, changeFirst?, if_neg (by simpa using hother), ih hrest,
        Option.map_some, List.cons_append]

theorem eraseP_of_unused (hunused : Unused key objects) : objects.eraseP (has key) = objects :=
  List.eraseP_of_forall_not hunused.not_has

theorem eraseP_of_first (hunused : Unused key before) (hkey : Keyed.key obj = key) :
    (before ++ obj :: after).eraseP (has key) = before ++ after := by
  rw [List.eraseP_append_right _ hunused.not_has, List.eraseP_cons_of_pos (by simpa using hkey)]

end

section

variable [Keyed α]

-- What a call does to the objects: it leaves them, or it puts, changes or removes one.
inductive Edits (objects : List α) : ShelfCall α → List α → Prop
  | appended (obj : α) (hunused : Unused (Keyed.key obj) objects) :
      Edits objects (.insert obj) (objects ++ [obj])
  | replaced (hobjects : objects = before ++ old :: after) (hkey : Keyed.key old = Keyed.key obj)
      (hunused : Unused (Keyed.key obj) before) :
      Edits objects (.insert obj) (before ++ obj :: after)
  | updated (f : α → α) (hobjects : objects = before ++ obj :: after)
      (hkey : Keyed.key obj = key) (hunused : Unused key before) :
      Edits objects (.update key f) (before ++ f obj :: after)
  | notUpdated (f : α → α) (hunused : Unused key objects) : Edits objects (.update key f) objects
  | deleted (hobjects : objects = before ++ obj :: after) (hkey : Keyed.key obj = key)
      (hunused : Unused key before) :
      Edits objects (.delete key) (before ++ after)
  | notDeleted (hunused : Unused key objects) : Edits objects (.delete key) objects
  | read (hread : call.isRead) : Edits objects call objects

theorem edits_step (shelf : Shelf α) (call : ShelfCall α) :
    Edits shelf.objects call (shelf.step call).objects := by
  cases call with
  | insert obj =>
      rcases unused_or_exists (Keyed.key obj) shelf.objects with
        hunused | ⟨before, old, after, hobjects, hkey, hunused⟩
      · simp only [Shelf.step, insert, changeFirst?_of_unused hunused, Option.getD_none]
        exact .appended obj hunused
      · simp only [Shelf.step, insert, hobjects, changeFirst?_of_first hunused hkey,
          Option.getD_some]
        exact .replaced rfl hkey hunused
  | update key f =>
      rcases unused_or_exists key shelf.objects with
        hunused | ⟨before, obj, after, hobjects, hkey, hunused⟩
      · simp only [Shelf.step, update, update?, changeFirst?_of_unused hunused, Option.map_none,
          Option.getD_none]
        exact .notUpdated f hunused
      · simp only [Shelf.step, update, update?, hobjects, changeFirst?_of_first hunused hkey,
          Option.map_some, Option.getD_some]
        exact .updated f rfl hkey hunused
  | delete key =>
      rcases unused_or_exists key shelf.objects with
        hunused | ⟨before, obj, after, hobjects, hkey, hunused⟩
      · simp only [Shelf.step, take, delete, eraseP_of_unused hunused]
        exact .notDeleted hunused
      · simp only [Shelf.step, take, delete, hobjects, eraseP_of_first hunused hkey]
        exact .deleted rfl hkey hunused
  | _ => exact .read rfl

end

end Shelf

end Eventually
