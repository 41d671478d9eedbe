import Eventually.Proofs.Store.Shelf
import Eventually.Resource.Item

namespace Eventually

namespace Shelf

variable [Keyed α] {shelf : Shelf α}

-- An update that gives the object it finds the key of another one.
def Collides (shelf : Shelf α) : ShelfCall α → Prop
  | .update key f => ∃ obj ∈ shelf.peek? key,
      Keyed.key (f obj) ≠ key ∧ (shelf.peek? (Keyed.key (f obj))).isSome
  | _ => False

theorem collides_update_iff {before after : List α} {obj : α} {key : Key} (f : α → α)
    (hobjects : shelf.objects = before ++ obj :: after) (hkey : Keyed.key obj = key)
    (hothers : Unused key (before ++ after)) :
    shelf.Collides (.update key f) ↔ ¬Unused (Keyed.key (f obj)) (before ++ after) := by
  have hfound : shelf.peek? key = some obj := by
    rw [peek?, hobjects, find?_of_first (fun o ho => hothers o (List.mem_append_left _ ho)) hkey]
  simp only [Collides, hfound, Option.mem_some_iff, exists_eq_left', peek?_isSome_iff, hobjects]
  by_cases hkept : Keyed.key (f obj) = key
  · simp [hkept, hothers]
  · have hself : Keyed.key obj ≠ Keyed.key (f obj) := fun hsame => hkept (hsame.symm.trans hkey)
    simp only [ne_eq, hkept, not_false_eq_true, true_and, Unused, List.forall_mem_append,
      List.forall_mem_cons, hself]

-- One call leaves the keys distinct unless it is such an update.
theorem KeysDistinct.step_iff (hdistinct : shelf.KeysDistinct) (call : ShelfCall α) :
    (shelf.step call).KeysDistinct ↔ ¬shelf.Collides call := by
  have hedits := edits_step shelf call
  unfold KeysDistinct at hdistinct ⊢
  generalize (shelf.step call).objects = objects at hedits
  cases hedits with
  | appended obj hunused =>
      refine iff_of_true ?_ id
      rw [← List.append_nil shelf.objects] at hunused hdistinct
      exact keys_nodup_middle.mpr ⟨hunused, hdistinct⟩
  | replaced hobjects hkey _ =>
      refine iff_of_true ?_ id
      rw [hobjects, keys_nodup_middle, hkey] at hdistinct
      exact keys_nodup_middle.mpr hdistinct
  | updated f hobjects hkey _ =>
      rw [hobjects, keys_nodup_middle, hkey] at hdistinct
      obtain ⟨hothers, hrest⟩ := hdistinct
      rw [keys_nodup_middle, and_iff_left hrest, collides_update_iff f hobjects hkey hothers,
        not_not]
  | notUpdated f hunused =>
      refine iff_of_true hdistinct ?_
      rintro ⟨obj, hobj, _⟩
      rw [peek?, find?_of_unused hunused] at hobj
      cases hobj
  | deleted hobjects _ _ =>
      rw [hobjects, keys_nodup_middle] at hdistinct
      exact iff_of_true hdistinct.2 id
  | notDeleted _ => exact iff_of_true hdistinct id
  | read hread =>
      refine iff_of_true hdistinct ?_
      cases call with
      | update key f => cases hread
      | _ => exact id

-- No call gives an object the key of another one.
def Tidy (shelf : Shelf α) : List (ShelfCall α) → Prop
  | [] => True
  | call :: rest => ¬shelf.Collides call ∧ (shelf.step call).Tidy rest

theorem KeysDistinct.throughout_iff (hdistinct : shelf.KeysDistinct) (calls : List (ShelfCall α)) :
    (∀ done, done <+: calls → (shelf.run done).KeysDistinct) ↔ shelf.Tidy calls := by
  induction calls generalizing shelf with
  | nil =>
      refine iff_of_true (fun done hdone => ?_) trivial
      rw [List.prefix_nil.mp hdone]
      exact hdistinct
  | cons call rest ih =>
      rw [Tidy, ← hdistinct.step_iff call]
      constructor
      · intro hall
        have hnext := hall [call] (by simp)
        exact ⟨hnext, (ih hnext).mp fun done hdone =>
          hall (call :: done) (List.prefix_cons_inj call |>.mpr hdone)⟩
      · rintro ⟨hnext, htidy⟩ done hdone
        rcases List.prefix_cons_iff.mp hdone with rfl | ⟨later, rfl, hlater⟩
        · exact hdistinct
        · exact (ih hnext).mpr htidy later hlater

theorem ofObjects_eq (objects : List α) :
    ofObjects objects = ({} : Shelf α).run (objects.map .insert) := by
  rw [run, List.foldl_map]
  rfl

theorem tidy_inserts (shelf : Shelf α) (objects : List α) :
    shelf.Tidy (objects.map .insert) := by
  induction objects generalizing shelf with
  | nil => trivial
  | cons obj rest ih => exact ⟨id, ih (shelf.insert obj)⟩

theorem ofObjects_keysDistinct (objects : List α) : (ofObjects objects).KeysDistinct := by
  have hempty : ({} : Shelf α).KeysDistinct := List.nodup_nil
  rw [ofObjects_eq]
  exact (hempty.throughout_iff _).mpr (tidy_inserts _ objects) _ (List.prefix_refl _)

-- Removing the first object under a key leaves none exactly where keys are distinct.
theorem keys_nodup_iff {objects : List α} :
    (objects.map Keyed.key).Nodup ↔ ∀ key, Unused key (objects.eraseP (has key)) := by
  constructor
  · intro hnodup key
    rcases unused_or_exists key objects with
      hunused | ⟨before, obj, after, hobjects, hkey, hunused⟩
    · rwa [eraseP_of_unused hunused]
    · rw [hobjects, keys_nodup_middle, hkey] at hnodup
      rw [hobjects, eraseP_of_first hunused hkey]
      exact hnodup.1
  · intro hall
    induction objects with
    | nil => exact List.nodup_nil
    | cons obj rest ih =>
        have hrest : Unused (Keyed.key obj) rest := by
          simpa using hall (Keyed.key obj)
        rw [List.map_cons, List.nodup_cons]
        refine ⟨unused_iff.mp hrest, ih fun key => ?_⟩
        by_cases hkey : Keyed.key obj = key
        · rw [← hkey, eraseP_of_unused hrest]
          exact hrest
        · have hkept := hall key
          rw [List.eraseP_cons_of_neg (by simpa using hkey)] at hkept
          exact (List.forall_mem_cons.mp hkept).2

theorem keysDistinct_iff_gone :
    shelf.KeysDistinct ↔
      ∀ key, (shelf.step (.delete key)).fetch key = .error (.notFound key) := by
  rw [KeysDistinct, keys_nodup_iff]
  exact forall_congr' fun key => (fetch_eq_notFound_iff (shelf.step (.delete key)) key).symm

-- From whatever objects a shelf is made, its keys stay distinct, and what is deleted is not found,
-- as long as no update gives an object the key of another. The first one that does ends both.
theorem unique_iff_tidy (objects : List α) (calls : List (ShelfCall α)) :
    ((∀ done, done <+: calls → ((ofObjects objects).run done).KeysDistinct) ↔
      (ofObjects objects).Tidy calls) ∧
    ((∀ done, done <+: calls → ∀ key,
        (((ofObjects objects).run done).step (.delete key)).fetch key = .error (.notFound key)) ↔
      (ofObjects objects).Tidy calls) := by
  have hthroughout := (ofObjects_keysDistinct objects).throughout_iff calls
  refine ⟨hthroughout, ?_⟩
  rw [← hthroughout]
  exact forall₂_congr fun done _ => keysDistinct_iff_gone.symm

def homonyms : List Item := [⟨"ns", "a", 1⟩, ⟨"ns", "b", 2⟩]

-- The first object is replaced by one with the name of the second.
def relabelling : ShelfCall Item := .update (.inScope "ns" "a") fun _ => ⟨"ns", "b", 3⟩

theorem renamed_outlives_deletion :
    ¬((ofObjects homonyms).run [relabelling]).KeysDistinct ∧
      ((ofObjects homonyms).run [relabelling, .delete (.inScope "ns" "b")]).fetch
        (.inScope "ns" "b") = .ok ⟨"ns", "b", 2⟩ := by
  refine ⟨by decide, by rfl⟩

end Shelf

end Eventually
