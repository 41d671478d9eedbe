import Eventually.Proofs.Text.Digits
import Eventually.Resource.Timestamp
import Mathlib.Data.List.TakeDrop
import Mathlib.Data.List.TakeWhile

namespace Eventually

namespace Timestamp

-- A number ends where something else than a digit follows.
theorem span_padded (width value : Nat) {c : Char} (hc : c.isDigit = false) (rest : List Char) :
    ((Text.padded width value).toList ++ c :: rest).span Char.isDigit =
      ((Text.padded width value).toList, c :: rest) := by
  have hdigits := Text.isDigit_of_mem_padded width value
  rw [List.span_eq_takeWhile_dropWhile, List.takeWhile_append_of_pos hdigits,
    List.dropWhile_append_of_pos hdigits]
  simp [hc]

-- A number of all the digits that are read ends by itself.
theorem number?_padded {most value : Nat} (hmost : 0 < most) (hvalue : value < 10 ^ most)
    (rest : List Char) :
    number? most ((Text.padded most value).toList ++ rest) = some (value, rest) := by
  have hlength := Text.length_padded hmost hvalue
  have hdigits : (Text.padded most value).toList.takeWhile Char.isDigit =
      (Text.padded most value).toList :=
    List.takeWhile_eq_self_iff.mpr (Text.isDigit_of_mem_padded most value)
  rw [number?, Text.trimStart_padded, List.take_left' hlength, hdigits]
  split
  · exact absurd ‹_› (Text.padded_ne_nil most value)
  · rw [Text.decimalValue_padded, List.drop_left' rfl]

theorem mark?_cons {mark : Char} (hmark : Text.isBlank mark = false) (rest : List Char) :
    mark? mark (mark :: rest) = some rest := by
  rw [mark?, Text.trimStart_cons_of_not_blank hmark]
  exact if_pos rfl

theorem year?_of_digit {c : Char} (hc : c.isDigit) (cs : List Char) :
    year? (c :: cs) = (number? 4 (c :: cs)).map fun (year, rest) => (Int.ofNat year, rest) := by
  rw [year?, Text.trimStart_cons_of_not_blank (Text.isBlank_of_isDigit hc)]
  split
  · rename_i heq
    cases heq
    cases hc
  · rename_i heq
    cases heq
    cases hc
  · rfl

theorem year?_signed {cs digits rest : List Char}
    (hspan : cs.span Char.isDigit = (digits, rest)) (hdigits : digits ≠ []) :
    year? ('-' :: cs) = some (-Int.ofNat (Text.decimalValue digits), rest) ∧
      year? ('+' :: cs) = some (Int.ofNat (Text.decimalValue digits), rest) := by
  obtain ⟨c, more, rfl⟩ := List.exists_cons_of_ne_nil hdigits
  constructor
  · rw [year?, Text.trimStart_cons_of_not_blank rfl]
    simp only [hspan, Option.map_some]
  · rw [year?, Text.trimStart_cons_of_not_blank rfl]
    simp only [hspan]

theorem year?_yearText (year : Int) (rest : List Char) :
    year? ((yearText year).toList ++ '-' :: rest) = some (year, '-' :: rest) := by
  unfold yearText
  split
  case isTrue hyear =>
    have hfits : year.toNat < 10 ^ 4 := by omega
    have hnumber := number?_padded (by omega) hfits ('-' :: rest)
    have hdigits := Text.isDigit_of_mem_padded 4 year.toNat
    cases htext : (Text.padded 4 year.toNat).toList with
    | nil => exact absurd htext (Text.padded_ne_nil 4 year.toNat)
    | cons c cs =>
        rw [htext] at hnumber hdigits
        rw [List.cons_append] at hnumber ⊢
        rw [year?_of_digit (hdigits c List.mem_cons_self), hnumber]
        simp only [Option.map_some, Int.ofNat_eq_natCast, Int.toNat_of_nonneg hyear.1]
  case isFalse hyear =>
    have hspan := span_padded 4 year.natAbs (c := '-') rfl rest
    have hsigned := year?_signed hspan (Text.padded_ne_nil 4 year.natAbs)
    rw [Text.decimalValue_padded] at hsigned
    rw [String.toList_append]
    by_cases hnegative : year < 0
    · rw [if_pos hnegative]
      refine hsigned.1.trans ?_
      rw [Int.ofNat_eq_natCast, Int.ofNat_natAbs_of_nonpos (by omega), Int.neg_neg]
    · rw [if_neg hnegative]
      refine hsigned.2.trans ?_
      rw [Int.ofNat_eq_natCast, Int.natAbs_of_nonneg (by omega)]

-- The digits that are not written are zeros.
theorem fraction?_padded {width value : Nat} (hwidth : 0 < width) (hmost : width ≤ 9)
    (hvalue : value < 10 ^ width) (rest : List Char) :
    fraction? (("." ++ Text.padded width value).toList ++ 'Z' :: rest) =
      some (value * 10 ^ (9 - width), 'Z' :: rest) := by
  have hspan := span_padded width value (c := 'Z') rfl rest
  have hlength := Text.length_padded hwidth hvalue
  have hdot : ("." ++ Text.padded width value).toList ++ 'Z' :: rest =
      '.' :: ((Text.padded width value).toList ++ 'Z' :: rest) := by
    rw [String.toList_append]
    rfl
  obtain ⟨c, more, hdigits⟩ := List.exists_cons_of_ne_nil (Text.padded_ne_nil width value)
  have htake : (c :: more).take 9 = c :: more := List.take_of_length_le (by rw [← hdigits]; omega)
  rw [hdot, fraction?, hspan]
  simp only [hdigits, htake]
  rw [← hdigits, Text.decimalValue_padded, hlength]
  rfl

theorem fraction?_fractionText {nano : Nat} (hnano : nano < 1000000000) (rest : List Char) :
    fraction? ((fractionText nano).toList ++ 'Z' :: rest) = some (nano, 'Z' :: rest) := by
  unfold fractionText
  split
  case isTrue hzero => rw [hzero]; rfl
  case isFalse =>
    split
    case isTrue hmillis =>
      rw [fraction?_padded (by omega) (by omega) (by omega)]
      have hexact : nano / 1000000 * 10 ^ (9 - 3) = nano := by omega
      rw [hexact]
    case isFalse =>
      split
      case isTrue hmicros =>
        rw [fraction?_padded (by omega) (by omega) (by omega)]
        have hexact : nano / 1000 * 10 ^ (9 - 6) = nano := by omega
        rw [hexact]
      case isFalse => rw [fraction?_padded (by omega) (by omega) hnano, Nat.sub_self, Nat.pow_zero, Nat.mul_one]

theorem build?_self (t : Timestamp) :
    build? t.date t.hour t.minute t.second t.nano = some t :=
  dif_pos ⟨t.date_valid, t.hour_lt, t.minute_lt, t.second_le, t.nano_lt⟩

theorem ofLocal?_zero (t : Timestamp) : t.ofLocal? 0 = some t := by
  have hhour := t.hour_lt
  have hminute := t.minute_lt
  have hminutes : Int.ofNat (t.hour * 60 + t.minute) - 0 = t.hour * 60 + t.minute := by
    rw [Int.sub_zero, Int.ofNat_eq_natCast, Int.natCast_add, Int.natCast_mul]
    rfl
  have hbefore : ¬(t.hour * 60 + t.minute : Int) < 0 := by omega
  have hafter : ¬1440 ≤ (t.hour * 60 + t.minute : Int) := by omega
  have hofDay : ((t.hour * 60 + t.minute : Int).emod 1440).toNat = t.hour * 60 + t.minute := by
    change ((t.hour * 60 + t.minute : Int) % 1440).toNat = _
    omega
  have hdiv : (t.hour * 60 + t.minute) / 60 = t.hour := by omega
  have hmod : (t.hour * 60 + t.minute) % 60 = t.minute := by omega
  simp only [ofLocal?, hminutes, if_neg hbefore, if_neg hafter, hofDay, hdiv, hmod, build?_self]

theorem date_lt (t : Timestamp) : t.date.month < 100 ∧ t.date.day < 100 := by
  obtain ⟨_, _, _, hmonth, _, hday⟩ := t.date_valid
  have hdays : daysInMonth t.date.year t.date.month ≤ 31 := by
    unfold daysInMonth
    split
    · split <;> omega
    · split <;> omega
  omega

theorem toList_text (t : Timestamp) :
    t.text.toList = (yearText t.date.year).toList ++ '-' ::
      ((Text.padded 2 t.date.month).toList ++ '-' :: ((Text.padded 2 t.date.day).toList ++ 'T' ::
        ((Text.padded 2 t.hour).toList ++ ':' :: ((Text.padded 2 t.minute).toList ++ ':' ::
          ((Text.padded 2 t.second).toList ++ ((fractionText t.nano).toList ++ ['Z'])))))) := by
  simp [text]

-- An instant is read back from its text.
theorem ofText?_text (t : Timestamp) : ofText? t.text = some t := by
  have hnumber {value : Nat} (hvalue : value < 100) (rest : List Char) :
      number? 2 ((Text.padded 2 value).toList ++ rest) = some (value, rest) :=
    number?_padded (by omega) hvalue rest
  have hmonth := hnumber t.date_lt.1
  have hday := hnumber t.date_lt.2
  have hhour := hnumber (Nat.lt_trans t.hour_lt (by omega))
  have hminute := hnumber (Nat.lt_trans t.minute_lt (by omega))
  have hsecond := hnumber (Nat.lt_of_le_of_lt t.second_le (by omega))
  have hdash (rest : List Char) : mark? '-' ('-' :: rest) = some rest := mark?_cons rfl rest
  have hcolon (rest : List Char) : mark? ':' (':' :: rest) = some rest := mark?_cons rfl rest
  have hoffset : offset? (Text.trimStart ['Z']) = some (0, []) := rfl
  rw [ofText?, t.toList_text, year?_yearText]
  -- The rest of the reading goes on with what each part of the text has left.
  dsimp only [Option.bind_eq_bind, Option.bind_some]
  rw [hdash, Option.bind_some, hmonth, Option.bind_some, hdash, Option.bind_some, hday,
    Option.bind_some]
  dsimp only
  rw [if_pos (.inl rfl)]
  simp only [hhour, hcolon, hminute, hsecond, fraction?_fractionText t.nano_lt, hoffset,
    Option.bind_some]
  change (build? t.date t.hour t.minute t.second t.nano).bind _ = _
  rw [build?_self, Option.bind_some, ofLocal?_zero]

theorem text_injective : Function.Injective text := fun _ _ htext =>
  Option.some.inj (by rw [← ofText?_text, htext, ofText?_text])

end Timestamp

end Eventually
