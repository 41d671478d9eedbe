import Eventually.Resource.LabelMap

namespace Eventually

namespace Entries

theorem find?_insert (key other : String) (value : β) (entries : Entries β) :
    find? other (insert key value entries) =
      if key = other then some value else find? other entries := by
  induction entries with
  | nil => rfl
  | cons head rest ih =>
      obtain ⟨k, v⟩ := head
      simp only [insert]
      split
      · rfl
      · split
        · rename_i hk
          subst hk
          simp only [find?]
          split <;> rfl
        · rename_i hk
          by_cases hother : k = other
          · have hkey : ¬key = other := fun h => hk (hother.trans h.symm)
            simp only [find?, if_pos hother, if_neg hkey]
          · simp only [find?, if_neg hother, ih]

theorem find?_erase (key other : String) (entries : Entries β) :
    find? other (erase key entries) = if key = other then none else find? other entries := by
  induction entries with
  | nil => exact (ite_self none).symm
  | cons head rest ih =>
      obtain ⟨k, v⟩ := head
      simp only [erase] at ih ⊢
      by_cases hk : k = key
      · rw [List.filter_cons_of_neg (by simp [hk]), ih]
        by_cases hother : key = other
        · rw [if_pos hother, if_pos hother]
        · simp only [find?, hk, if_neg hother]
      · rw [List.filter_cons_of_pos (by simp [hk])]
        simp only [find?, ih]
        by_cases hother : k = other
        · have hkey : ¬key = other := fun h => hk (hother.trans h.symm)
          simp only [if_pos hother, if_neg hkey]
        · simp only [if_neg hother]

theorem find?_eq_none_iff (key : String) (entries : Entries β) :
    find? key entries = none ↔ ∀ entry ∈ entries, entry.1 ≠ key := by
  induction entries with
  | nil => simp [find?]
  | cons head rest ih =>
      obtain ⟨k, v⟩ := head
      by_cases hk : k = key <;> simp [find?, hk, ih]

theorem mem_of_find? {key : String} {value : β} {entries : Entries β}
    (hfind : find? key entries = some value) : (key, value) ∈ entries := by
  induction entries with
  | nil => cases hfind
  | cons head rest ih =>
      obtain ⟨k, v⟩ := head
      simp only [find?] at hfind
      split at hfind
      · rename_i hk
        cases hfind
        exact hk ▸ List.mem_cons_self
      · exact List.mem_cons_of_mem _ (ih hfind)

theorem find?_map (f : β → γ) (key : String) (entries : Entries β) :
    find? key (entries.map (Prod.map id f)) = (find? key entries).map f := by
  induction entries with
  | nil => rfl
  | cons head rest ih =>
      obtain ⟨k, v⟩ := head
      by_cases hk : k = key <;> simp [find?, hk, ih]

-- Of the entries put in, those in front count more than those behind, and all more than the old.
theorem find?_foldr_insert (key : String) (added entries : Entries β) :
    find? key (added.foldr (fun entry sorted => insert entry.1 entry.2 sorted) entries) =
      (find? key added).or (find? key entries) := by
  induction added with
  | nil => rfl
  | cons head rest ih =>
      obtain ⟨k, v⟩ := head
      rw [List.foldr_cons, find?_insert]
      by_cases hk : k = key <;> simp [find?, hk, ih]

theorem foldr_insert_ordered (added : Entries β) {entries : Entries β}
    (hordered : Ordered entries) :
    Ordered (added.foldr (fun entry sorted => insert entry.1 entry.2 sorted) entries) := by
  induction added with
  | nil => exact hordered
  | cons head rest ih => exact insert_ordered head.1 head.2 ih

theorem Ordered.map {entries : Entries β} (hordered : Ordered entries) (f : β → γ) :
    Ordered (entries.map (Prod.map id f)) :=
  List.pairwise_map.mpr hordered

theorem find?_eq_none_of_forall_lt {key : String} {entries : Entries β}
    (hlt : ∀ entry ∈ entries, key < entry.1) : find? key entries = none :=
  (find?_eq_none_iff key entries).mpr fun entry hentry heq =>
    String.lt_irrefl key (heq ▸ hlt entry hentry)

-- The keys in front are settled by the order, so what is found under each key tells the rest.
theorem ext {xs ys : Entries β} (hxs : Ordered xs) (hys : Ordered ys)
    (hfind : ∀ key, find? key xs = find? key ys) : xs = ys := by
  induction xs generalizing ys with
  | nil =>
      cases ys with
      | nil => rfl
      | cons head rest => simpa [find?] using hfind head.1
  | cons x xs ih =>
      obtain ⟨k, v⟩ := x
      obtain ⟨hx, hxrest⟩ := List.pairwise_cons.mp hxs
      cases ys with
      | nil => simpa [find?] using hfind k
      | cons y ys =>
          obtain ⟨l, w⟩ := y
          obtain ⟨hy, hyrest⟩ := List.pairwise_cons.mp hys
          have hk := hfind k
          have hl := hfind l
          by_cases heq : l = k
          · subst heq
            have hvalue : v = w := by simpa [find?] using hk
            have hrest : ∀ key, find? key xs = find? key ys := by
              intro key
              by_cases hkey : l = key
              · subst hkey
                rw [find?_eq_none_of_forall_lt hx, find?_eq_none_of_forall_lt hy]
              · simpa [find?, hkey] using hfind key
            rw [hvalue, ih hxrest hyrest hrest]
          · have hkl : ¬k < l := by
              intro hlt
              have hnone := find?_eq_none_of_forall_lt fun entry hentry =>
                String.lt_trans hlt (hy entry hentry)
              simp [find?, heq, hnone] at hk
            have hlk := lt_of_not_lt_of_ne hkl heq
            have hnone := find?_eq_none_of_forall_lt fun entry hentry =>
              String.lt_trans hlk (hx entry hentry)
            simp [find?, Ne.symm heq, hnone] at hl

theorem insert_of_find? {key : String} {value : β} {entries : Entries β}
    (hordered : Ordered entries) (hfind : find? key entries = some value) :
    insert key value entries = entries := by
  refine ext (insert_ordered key value hordered) hordered fun other => ?_
  rw [find?_insert]
  by_cases hother : key = other
  · rw [if_pos hother, ← hother, hfind]
  · rw [if_neg hother]

theorem erase_of_find? {key : String} {entries : Entries β} (hordered : Ordered entries)
    (hfind : find? key entries = none) : erase key entries = entries := by
  refine ext (erase_ordered key hordered) hordered fun other => ?_
  rw [find?_erase]
  by_cases hother : key = other
  · rw [if_pos hother, ← hother, hfind]
  · rw [if_neg hother]

theorem find?_append (key : String) (xs ys : Entries β) :
    find? key (xs ++ ys) = (find? key xs).or (find? key ys) := by
  induction xs with
  | nil => rfl
  | cons head rest ih =>
      obtain ⟨k, v⟩ := head
      by_cases hk : k = key <;> simp [find?, hk, ih]

-- What comes last counts.
theorem find?_ofList (key : String) (entries : List (String × β)) :
    find? key (ofList entries) = find? key entries.reverse := by
  have hfold := find?_foldr_insert key entries.reverse []
  rw [List.foldr_reverse] at hfold
  rw [ofList, hfold]
  cases find? key entries.reverse <;> rfl

-- Under keys in order nothing is put in twice.
theorem find?_reverse {entries : Entries β} (hordered : Ordered entries) (key : String) :
    find? key entries.reverse = find? key entries := by
  induction entries with
  | nil => rfl
  | cons head rest ih =>
      obtain ⟨k, v⟩ := head
      obtain ⟨hhead, hrest⟩ := List.pairwise_cons.mp hordered
      rw [List.reverse_cons, find?_append, ih hrest]
      by_cases hk : k = key
      · subst hk
        simp [find?, find?_eq_none_of_forall_lt hhead]
      · simp [find?, hk]

theorem ofList_of_ordered {entries : Entries β} (hordered : Ordered entries) :
    ofList entries = entries :=
  ext (ofList_ordered entries) hordered fun key =>
    (find?_ofList key entries).trans (find?_reverse hordered key)

theorem mem_of_mem_ofList {entries : List (String × β)} {entry : String × β}
    (hmem : entry ∈ ofList entries) : entry ∈ entries := by
  suffices hfold : ∀ sorted : Entries β,
      entry ∈ entries.foldl (fun sorted entry => insert entry.1 entry.2 sorted) sorted →
        entry ∈ sorted ∨ entry ∈ entries from
    (hfold [] hmem).elim (fun hnone => nomatch hnone) id
  clear hmem
  induction entries with
  | nil => exact fun _ hmem => .inl hmem
  | cons head rest ih =>
      intro sorted hmem
      rcases ih _ hmem with hmem | hmem
      · rcases mem_insert hmem with rfl | hmem
        · exact .inr List.mem_cons_self
        · exact .inl hmem
      · exact .inr (List.mem_cons_of_mem _ hmem)

end Entries

namespace LabelMap

theorem insert_of_get? {labels : LabelMap} {key value : String}
    (hget : labels.get? key = some value) : labels.insert key value = labels := by
  rw [insert, mk.injEq]
  exact Entries.insert_of_find? labels.ordered hget

theorem erase_of_get? {labels : LabelMap} {key : String} (hget : labels.get? key = none) :
    labels.erase key = labels := by
  rw [erase, mk.injEq]
  exact Entries.erase_of_find? labels.ordered hget

theorem get?_insert (labels : LabelMap) (key value other : String) :
    (labels.insert key value).get? other = if key = other then some value else labels.get? other :=
  Entries.find?_insert key other value labels.entries

theorem get?_erase (labels : LabelMap) (key other : String) :
    (labels.erase key).get? other = if key = other then none else labels.get? other :=
  Entries.find?_erase key other labels.entries

end LabelMap

end Eventually
