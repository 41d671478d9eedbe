import Eventually.Proofs.Text.Digits
import Eventually.Resource.Identifier
import Mathlib.Algebra.BigOperators.Group.List.Basic

namespace Eventually

namespace Identifier

theorem hexDigit?_digitChar : ∀ digit : Fin 16, hexDigit? (Nat.digitChar digit.val) = some digit := by
  decide

theorem ofDigits?_digits (id : Identifier) :
    ofDigits? (id.digits.map fun digit => Nat.digitChar digit.val) = some id := by
  have hread := Text.mapM_map_eq_some hexDigit?_digitChar id.digits
  rw [ofDigits?, hread, Option.bind_some, dif_pos id.size]

section

variable {first : Nat} {counts : List Nat} {cs : List Char}

theorem splitGroups_cons (second : Nat) (counts : List Nat) (cs : List Char) :
    splitGroups (first :: second :: counts) cs =
      cs.take first ++ '-' :: splitGroups (second :: counts) (cs.drop first) := rfl

theorem length_splitGroups (hcs : cs.length = (first :: counts).sum) :
    (splitGroups (first :: counts) cs).length = cs.length + counts.length := by
  induction counts generalizing first cs with
  | nil => rfl
  | cons second counts ih =>
      have hrest : (cs.drop first).length = (second :: counts).sum := by
        rw [List.length_drop, hcs, List.sum_cons, Nat.add_sub_cancel_left]
      rw [splitGroups_cons, List.length_append, List.length_cons, ih hrest, List.length_take,
        List.length_drop, List.length_cons]
      rw [List.sum_cons] at hcs
      omega

-- The hyphens stand where the groups end, so joining the groups takes out these and nothing else.
theorem joinGroups?_splitGroups (hcs : cs.length = (first :: counts).sum) :
    joinGroups? (first :: counts) (splitGroups (first :: counts) cs) = some cs := by
  induction counts generalizing first cs with
  | nil =>
      rw [List.sum_singleton] at hcs
      exact if_pos hcs
  | cons second counts ih =>
      have hrest : (cs.drop first).length = (second :: counts).sum := by
        rw [List.length_drop, hcs, List.sum_cons, Nat.add_sub_cancel_left]
      have htake : (cs.take first).length = first := by
        rw [List.length_take, hcs, List.sum_cons]
        omega
      rw [splitGroups_cons, joinGroups?, List.drop_left' htake, List.take_left' htake]
      · simp only [ih hrest, Option.map_some, List.take_append_drop]
      · exact List.cons_ne_nil _ _

end

-- An identifier is read back from its text.
theorem ofText?_text (id : Identifier) : ofText? id.text = some id := by
  have hdigits : (id.digits.map fun digit => Nat.digitChar digit.val).length = groups.sum := by
    rw [List.length_map, id.size]
    rfl
  have hlength : (splitGroups groups (id.digits.map fun digit => Nat.digitChar digit.val)).length =
      36 := by
    rw [groups, length_splitGroups hdigits, hdigits]
    rfl
  have hread : ofHyphenated? (splitGroups groups (id.digits.map fun digit =>
      Nat.digitChar digit.val)) = some id := by
    rw [ofHyphenated?, groups, joinGroups?_splitGroups hdigits, Option.bind_some, ofDigits?_digits]
  simp only [ofText?, text, String.toList_ofList, hlength, hread]

theorem text_injective : Function.Injective text := fun _ _ htext =>
  Option.some.inj (by rw [← ofText?_text, htext, ofText?_text])

end Identifier

end Eventually
