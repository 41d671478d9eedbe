namespace Eventually

-- Entries under text keys. In strictly ascending key order, lists with the same entries are equal.
abbrev Entries (β : Type) := List (String × β)

namespace Entries

def Ordered (entries : Entries β) : Prop := entries.Pairwise fun a b => a.1 < b.1

instance (entries : Entries β) : Decidable (Ordered entries) :=
  inferInstanceAs (Decidable (entries.Pairwise fun a b => a.1 < b.1))

def find? (key : String) : Entries β → Option β
  | [] => none
  | (k, value) :: rest => if k = key then some value else find? key rest

-- Replaces the value under a present key and puts an absent key in its place.
def insert (key : String) (value : β) : Entries β → Entries β
  | [] => [(key, value)]
  | (k, v) :: rest =>
      if key < k then (key, value) :: (k, v) :: rest
      else if k = key then (key, value) :: rest
      else (k, v) :: insert key value rest

def erase (key : String) (entries : Entries β) : Entries β :=
  entries.filter fun entry => entry.1 ≠ key

-- Of several entries under one key the last one counts.
def ofList (entries : List (String × β)) : Entries β :=
  entries.foldl (fun sorted entry => insert entry.1 entry.2 sorted) []

theorem lt_of_not_lt_of_ne {a b : String} (hlt : ¬a < b) (hne : b ≠ a) : b < a := by
  rcases Classical.em (b < a) with h | h
  · exact h
  · exact absurd (String.le_antisymm (String.not_lt.mp hlt) (String.not_lt.mp h)) hne

theorem mem_insert {key : String} {value : β} {entries : Entries β} {entry : String × β}
    (hmem : entry ∈ insert key value entries) : entry = (key, value) ∨ entry ∈ entries := by
  induction entries with
  | nil => exact .inl (List.mem_singleton.mp hmem)
  | cons head rest ih =>
      obtain ⟨k, v⟩ := head
      simp only [insert] at hmem
      split at hmem
      · exact List.mem_cons.mp hmem
      · split at hmem
        · exact (List.mem_cons.mp hmem).imp_right (List.mem_cons_of_mem _)
        · rcases List.mem_cons.mp hmem with h | h
          · exact .inr (h ▸ List.mem_cons_self)
          · exact (ih h).imp_right (List.mem_cons_of_mem _)

theorem insert_ordered (key : String) (value : β) {entries : Entries β}
    (hordered : Ordered entries) : Ordered (insert key value entries) := by
  induction entries with
  | nil => exact List.pairwise_singleton ..
  | cons head rest ih =>
      obtain ⟨k, v⟩ := head
      obtain ⟨hhead, hrest⟩ := List.pairwise_cons.mp hordered
      simp only [insert]
      split
      next hlt =>
        refine List.pairwise_cons.mpr ⟨fun entry hmem => ?_, hordered⟩
        rcases List.mem_cons.mp hmem with rfl | hmem
        · exact hlt
        · exact String.lt_trans hlt (hhead entry hmem)
      next hlt =>
        split
        next heq =>
          exact List.pairwise_cons.mpr ⟨fun entry hmem => heq ▸ hhead entry hmem, hrest⟩
        next hne =>
          refine List.pairwise_cons.mpr ⟨fun entry hmem => ?_, ih hrest⟩
          rcases mem_insert hmem with rfl | hmem
          · exact lt_of_not_lt_of_ne hlt hne
          · exact hhead entry hmem

theorem erase_ordered (key : String) {entries : Entries β} (hordered : Ordered entries) :
    Ordered (erase key entries) := List.Pairwise.filter _ hordered

theorem ofList_ordered (entries : List (String × β)) : Ordered (ofList entries) := by
  suffices hfold : ∀ sorted : Entries β, Ordered sorted →
      Ordered (entries.foldl (fun sorted entry => insert entry.1 entry.2 sorted) sorted) from
    hfold [] List.Pairwise.nil
  induction entries with
  | nil => exact fun _ hsorted => hsorted
  | cons entry rest ih =>
      exact fun sorted hsorted => ih _ (insert_ordered entry.1 entry.2 hsorted)

end Entries

end Eventually
