import Eventually.Duration

namespace Eventually.Duration

-- A duration in two fields, whole seconds of 64 bits and the part of a second beyond them.
structure Parts where
  seconds : Nat
  subsecond : Nat
  seconds_lt : seconds < UInt64.size
  subsecond_lt : subsecond < perSecond
deriving DecidableEq

namespace Parts

def whole (p : Parts) : Duration := ofParts p.seconds p.subsecond

theorem whole_nanos (p : Parts) : p.whole.nanos = p.seconds * perSecond + p.subsecond := rfl

theorem whole_lt_limit (p : Parts) : p.whole.nanos < limit := by
  have hseconds := p.seconds_lt
  have hsubsecond := p.subsecond_lt
  simp only [whole_nanos, limit, perSecond] at *
  omega

-- None if there are too many seconds.
def make? (seconds subsecond : Nat) (hsubsecond : subsecond < perSecond) : Option Parts :=
  if hseconds : seconds < UInt64.size then some ⟨seconds, subsecond, hseconds, hsubsecond⟩
  else none

def zero : Parts := ⟨0, 0, by decide, by decide⟩

def millisecond : Parts := ⟨0, 1000000, by decide, by decide⟩

def longest : Parts := ⟨UInt64.size - 1, perSecond - 1, by decide, by decide⟩

-- A whole second in the sum of the parts carries over.
def add? (a b : Parts) : Option Parts :=
  if hcarry : a.subsecond + b.subsecond < perSecond then
    make? (a.seconds + b.seconds) (a.subsecond + b.subsecond) hcarry
  else
    make? (a.seconds + b.seconds + 1) (a.subsecond + b.subsecond - perSecond) (by
      have ha := a.subsecond_lt
      have hb := b.subsecond_lt
      omega)

-- A second is borrowed if the part of a second is too small. Nothing is less than zero.
def sub (a b : Parts) : Parts :=
  if hborrow : b.subsecond ≤ a.subsecond then
    if b.seconds ≤ a.seconds then
      ⟨a.seconds - b.seconds, a.subsecond - b.subsecond,
        Nat.lt_of_le_of_lt (Nat.sub_le ..) a.seconds_lt,
        Nat.lt_of_le_of_lt (Nat.sub_le ..) a.subsecond_lt⟩
    else zero
  else
    if b.seconds < a.seconds then
      ⟨a.seconds - (b.seconds + 1), a.subsecond + perSecond - b.subsecond,
        Nat.lt_of_le_of_lt (Nat.sub_le ..) a.seconds_lt, by
          have ha := a.subsecond_lt
          omega⟩
    else zero

-- Seconds count first.
instance : LE Parts where
  le a b := a.seconds < b.seconds ∨ a.seconds = b.seconds ∧ a.subsecond ≤ b.subsecond

instance : DecidableLE Parts := fun a b =>
  inferInstanceAs
    (Decidable (a.seconds < b.seconds ∨ a.seconds = b.seconds ∧ a.subsecond ≤ b.subsecond))

instance : Max Parts := maxOfLe

instance : Min Parts := minOfLe

theorem le_iff (a b : Parts) : a ≤ b ↔ a.whole.nanos ≤ b.whole.nanos := by
  have ha := a.subsecond_lt
  have hb := b.subsecond_lt
  change (_ ∨ _) ↔ _
  simp only [whole_nanos, perSecond] at *
  omega

theorem whole_max (a b : Parts) : (max a b).whole.nanos = max a.whole.nanos b.whole.nanos := by
  change (if a ≤ b then b else a).whole.nanos = _
  split
  next hle => exact (Nat.max_eq_right ((le_iff a b).mp hle)).symm
  next hlt =>
    rw [le_iff, Nat.not_le] at hlt
    exact (Nat.max_eq_left (Nat.le_of_lt hlt)).symm

theorem whole_min (a b : Parts) : (min a b).whole.nanos = min a.whole.nanos b.whole.nanos := by
  change (if a ≤ b then a else b).whole.nanos = _
  split
  next hle => exact (Nat.min_eq_left ((le_iff a b).mp hle)).symm
  next hlt =>
    rw [le_iff, Nat.not_le] at hlt
    exact (Nat.min_eq_right (Nat.le_of_lt hlt)).symm

theorem whole_sub (a b : Parts) : (a.sub b).whole.nanos = a.whole.nanos - b.whole.nanos := by
  have ha := a.subsecond_lt
  have hb := b.subsecond_lt
  rw [sub]
  split <;> split <;> simp only [whole_nanos, zero, perSecond] at * <;> omega

theorem make?_whole (seconds subsecond : Nat) (hsubsecond : subsecond < perSecond) :
    (make? seconds subsecond hsubsecond).map whole =
      if seconds * perSecond + subsecond < limit then some (ofParts seconds subsecond)
      else none := by
  have hfits : seconds < UInt64.size ↔ seconds * perSecond + subsecond < limit := by
    simp only [limit, perSecond] at *
    omega
  rw [make?]
  split
  next hseconds => rw [if_pos (hfits.mp hseconds)]; rfl
  next hseconds => rw [if_neg (mt hfits.mpr hseconds)]; rfl

-- With a carry or without one, the sum in parts is the sum of the wholes, and it exists when that
-- is a duration again.
theorem add?_whole (a b : Parts) : (a.add? b).map whole = a.whole.add? b.whole := by
  have ha := a.subsecond_lt
  have hb := b.subsecond_lt
  rw [Duration.add?, add?]
  split
  next hcarry =>
    have hsum : (a.seconds + b.seconds) * perSecond + (a.subsecond + b.subsecond) =
        a.whole.nanos + b.whole.nanos := by
      simp only [whole_nanos, perSecond]
      omega
    rw [make?_whole, ofParts, hsum]
  next hcarry =>
    have hsum : (a.seconds + b.seconds + 1) * perSecond +
        (a.subsecond + b.subsecond - perSecond) = a.whole.nanos + b.whole.nanos := by
      simp only [whole_nanos, perSecond] at *
      omega
    rw [make?_whole, ofParts, hsum]

-- The parts of a time that has passed. One beyond all durations counts as the longest.
def ofDuration (d : Duration) : Parts :=
  if hseconds : d.seconds < UInt64.size then
    ⟨d.seconds, d.subsecond, hseconds, Nat.mod_lt _ (by decide)⟩
  else longest

theorem whole_ofDuration (d : Duration) :
    (ofDuration d).whole.nanos = min d.nanos (limit - 1) := by
  have hparts : d.nanos / perSecond * perSecond + d.nanos % perSecond = d.nanos :=
    Nat.div_add_mod' ..
  have hfits : d.nanos / perSecond < UInt64.size ↔ d.nanos < limit :=
    Nat.div_lt_iff_lt_mul (by decide)
  rw [ofDuration]
  split
  next hseconds =>
    have hlt := hfits.mp hseconds
    change d.nanos / perSecond * perSecond + d.nanos % perSecond = _
    omega
  next hseconds =>
    have hge := mt hfits.mpr hseconds
    change limit - 1 = _
    omega

end Parts

end Eventually.Duration
