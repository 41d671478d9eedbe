import Eventually.Text.Blank
import Eventually.Text.Digits
import Mathlib.Data.Nat.Digits.Defs

namespace Eventually

namespace Text

-- Items that are read one by one are read back from what each is written as.
theorem mapM_map_eq_some {write : α → β} {read? : β → Option α}
    (hread : ∀ item, read? (write item) = some item) (items : List α) :
    (items.map write).mapM read? = some items := by
  induction items with
  | nil => rfl
  | cons item rest ih => simp [hread, ih]

theorem decimalValue_eq_ofDigitChars (digits : List Char) :
    decimalValue digits = Nat.ofDigitChars 10 digits 0 := by
  simp only [decimalValue, Nat.ofDigitChars, Nat.mul_comm]

theorem decimalValue_zeros (count : Nat) (digits : List Char) :
    decimalValue (List.replicate count '0' ++ digits) = decimalValue digits := by
  induction count with
  | zero => rfl
  | succ count ih => rw [← ih]; rfl

theorem toList_padded (width value : Nat) :
    (padded width value).toList =
      List.replicate (width - (Nat.toDigits 10 value).length) '0' ++ Nat.toDigits 10 value := by
  rw [padded, Nat.toString_eq_repr, String.toList_append, String.toList_ofList, Nat.toList_repr,
    ← String.length_toList, Nat.toList_repr]

theorem isDigit_of_mem_padded (width value : Nat) :
    ∀ c ∈ (padded width value).toList, c.isDigit := by
  rw [toList_padded]
  refine List.forall_mem_append.mpr ⟨fun c hc => ?_, fun c hc => ?_⟩
  · rw [List.eq_of_mem_replicate hc]
    rfl
  · exact Nat.isDigit_of_mem_toDigits (by omega) (by omega) hc

theorem decimalValue_padded (width value : Nat) :
    decimalValue (padded width value).toList = value := by
  rw [toList_padded, decimalValue_zeros, decimalValue_eq_ofDigitChars]
  exact Nat.ofDigitChars_toDigits (by omega) (by omega)

theorem padded_ne_nil (width value : Nat) : (padded width value).toList ≠ [] := by
  rw [toList_padded]
  exact List.append_ne_nil_of_right_ne_nil _ Nat.toDigits_ne_nil

theorem length_padded {width value : Nat} (hwidth : 0 < width) (hvalue : value < 10 ^ width) :
    (padded width value).toList.length = width := by
  have hlength : (Nat.toDigits 10 value).length ≤ width :=
    (Nat.length_toDigits_le_iff (by omega) hwidth).mpr hvalue
  rw [toList_padded, List.length_append, List.length_replicate]
  omega

theorem isBlank_of_isDigit {c : Char} (hc : c.isDigit) : isBlank c = false := by
  have hrange : 48 ≤ c.toNat ∧ c.toNat ≤ 57 := by
    simpa [Char.isDigit, UInt32.le_iff_toNat_le] using hc
  simp [isBlank, CodeRanges.contains, blanks]
  omega

theorem trimStart_cons_of_not_blank {c : Char} (hc : isBlank c = false) (rest : List Char) :
    trimStart (c :: rest) = c :: rest := by
  rw [trimStart, List.dropWhile_cons, hc]
  rfl

-- What begins with a number is trimmed.
theorem trimStart_padded (width value : Nat) (rest : List Char) :
    trimStart ((padded width value).toList ++ rest) = (padded width value).toList ++ rest := by
  have hdigits := isDigit_of_mem_padded width value
  cases hpadded : (padded width value).toList with
  | nil => exact absurd hpadded (padded_ne_nil width value)
  | cons c digits =>
      rw [hpadded] at hdigits
      exact trimStart_cons_of_not_blank (isBlank_of_isDigit (hdigits c List.mem_cons_self)) _

end Text

end Eventually
