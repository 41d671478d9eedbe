import Eventually.Clock
import Mathlib.Algebra.Order.Floor.Div

namespace Eventually.Clock

theorem reach_nanos (clock : Clock) (time : Duration) :
    (clock.reach time).nanos = time.nanos ⌈/⌉ clock.granule * clock.granule := by
  have hpos := clock.granule_pos
  simp only [reach, Nat.ceilDiv_eq_add_pred_div]
  congr 2
  omega

theorem reach_lt (clock : Clock) (time : Duration) :
    (clock.reach time).nanos < time.nanos + clock.granule := by
  have hpos := clock.granule_pos
  have hle := Nat.div_mul_le_self (time.nanos + (clock.granule - 1)) clock.granule
  simp only [reach]
  omega

-- Nothing lies between a time and the granule that it reaches but times that reach it too.
theorem reach_le_reach (clock : Clock) {time other : Duration}
    (hle : time.nanos ≤ (clock.reach other).nanos) :
    (clock.reach time).nanos ≤ (clock.reach other).nanos := by
  rw [reach_nanos, reach_nanos] at *
  apply Nat.mul_le_mul_right
  rw [ceilDiv_le_iff_le_mul clock.granule_pos, Nat.mul_comm]
  exact hle

theorem reach_mono (clock : Clock) {time other : Duration} (hle : time.nanos ≤ other.nanos) :
    (clock.reach time).nanos ≤ (clock.reach other).nanos :=
  clock.reach_le_reach (Nat.le_trans hle (clock.le_reach other))

theorem cut_le (clock : Clock) (wait : Duration) : (clock.cut wait).nanos ≤ wait.nanos := by
  simp only [cut]
  cases clock.longest with
  | none => exact Nat.le_refl _
  | some longest => exact Nat.min_le_left ..

theorem cut_mono (clock : Clock) {wait longer : Duration} (hle : wait.nanos ≤ longer.nanos) :
    (clock.cut wait).nanos ≤ (clock.cut longer).nanos := by
  simp only [cut]
  cases clock.longest with
  | none => exact hle
  | some longest =>
      simp only [Option.elim]
      omega

-- A budget lasts at least as long as a sleep of the same length would.
theorem add_cut_le_deadline (clock : Clock) (now budget : Duration) :
    now.nanos + (clock.cut budget).nanos ≤ (clock.deadline now budget).nanos := by
  simp only [deadline]
  split
  · exact clock.le_reach _
  · exact Nat.le_trans (Nat.add_le_add_left (clock.cut_le budget) _) (clock.le_reach _)

theorem wake_le (clock : Clock) (now wait : Duration) :
    (clock.wake now wait).nanos ≤ (clock.reach ⟨now.nanos + wait.nanos⟩).nanos :=
  clock.reach_mono (Nat.add_le_add_left (clock.cut_le wait) _)

-- A delay takes less than a granule longer than it should.
theorem delayed_lt (clock : Clock) (now delay : Duration) :
    (clock.delayed now delay).nanos < now.nanos + delay.nanos + clock.granule := by
  have hpos := clock.granule_pos
  simp only [delayed]
  split
  · omega
  · have hcut := clock.cut_le delay
    have hreach := clock.reach_lt ⟨now.nanos + (clock.cut delay).nanos⟩
    simp only [wake] at hreach ⊢
    omega

theorem delayed_zero (clock : Clock) (now : Duration) : clock.delayed now .zero = now := rfl

theorem le_delayed (clock : Clock) (now delay : Duration) :
    now.nanos ≤ (clock.delayed now delay).nanos := by
  simp only [delayed]
  split
  · exact Nat.le_refl _
  · exact clock.le_wake now delay

theorem deadline_le (clock : Clock) (now budget : Duration) :
    (clock.deadline now budget).nanos ≤ (clock.reach ⟨now.nanos + budget.nanos⟩).nanos := by
  simp only [deadline]
  split
  · exact clock.wake_le now budget
  · exact Nat.le_refl _

-- A budget runs out before a delay is over that the clock lets last a granule longer.
theorem deadline_lt_delayed (clock : Clock) (now : Duration) {budget delay : Duration}
    (hslow : budget.nanos + clock.granule ≤ (clock.cut delay).nanos) :
    (clock.deadline now budget).nanos < (clock.delayed now delay).nanos := by
  have hsome : delay.nanos ≠ 0 := by
    have hpos := clock.granule_pos
    have hcut := clock.cut_le delay
    omega
  rw [delayed, if_neg hsome]
  calc (clock.deadline now budget).nanos
      ≤ (clock.reach ⟨now.nanos + budget.nanos⟩).nanos := clock.deadline_le now budget
    _ < now.nanos + budget.nanos + clock.granule := clock.reach_lt _
    _ ≤ now.nanos + (clock.cut delay).nanos := by omega
    _ ≤ (clock.wake now delay).nanos := clock.le_reach _

-- A sleep that the clock does not cut short lasts at least as long as it should.
theorem add_le_wake (clock : Clock) (now : Duration) {wait : Duration}
    (hcut : clock.cut wait = wait) : now.nanos + wait.nanos ≤ (clock.wake now wait).nanos := by
  rw [wake, hcut]
  exact clock.le_reach _

theorem dvd_reach (clock : Clock) (time : Duration) :
    clock.granule ∣ (clock.reach time).nanos := by
  rw [reach_nanos]
  exact Nat.dvd_mul_left ..

theorem dvd_wake (clock : Clock) (now wait : Duration) :
    clock.granule ∣ (clock.wake now wait).nanos :=
  clock.dvd_reach _

theorem reach_le_of_dvd (clock : Clock) {time : Duration} (hdvd : clock.granule ∣ time.nanos) :
    (clock.reach time).nanos ≤ time.nanos := by
  obtain ⟨count, hcount⟩ := hdvd
  have hceil : time.nanos ⌈/⌉ clock.granule ≤ count := by
    rw [ceilDiv_le_iff_le_mul clock.granule_pos, hcount]
  rw [reach_nanos]
  calc time.nanos ⌈/⌉ clock.granule * clock.granule
      ≤ count * clock.granule := Nat.mul_le_mul_right _ hceil
    _ = time.nanos := by rw [hcount, Nat.mul_comm]

-- Between two multiples of its granule a clock loses no time.
theorem wake_le_of_dvd (clock : Clock) {now wait : Duration} (hnow : clock.granule ∣ now.nanos)
    (hwait : clock.granule ∣ wait.nanos) :
    (clock.wake now wait).nanos ≤ now.nanos + wait.nanos :=
  Nat.le_trans (clock.wake_le now wait) (clock.reach_le_of_dvd (Nat.dvd_add hnow hwait))

theorem dvd_cut (clock : Clock) {wait : Duration} (hwait : clock.granule ∣ wait.nanos)
    (hlongest : ∀ longest ∈ clock.longest, clock.granule ∣ longest.nanos) :
    clock.granule ∣ (clock.cut wait).nanos := by
  simp only [cut]
  cases hcut : clock.longest with
  | none => exact hwait
  | some longest =>
      rcases Nat.le_total wait.nanos longest.nanos with hle | hle
      · simpa only [Option.elim, Nat.min_eq_left hle] using hwait
      · simpa only [Option.elim, Nat.min_eq_right hle] using hlongest longest hcut

-- A sleep from one multiple of the granule to another ends to the point.
theorem wake_eq_of_dvd (clock : Clock) {now wait : Duration} (hnow : clock.granule ∣ now.nanos)
    (hcut : clock.granule ∣ (clock.cut wait).nanos) :
    (clock.wake now wait).nanos = now.nanos + (clock.cut wait).nanos :=
  Nat.le_antisymm (clock.reach_le_of_dvd (Nat.dvd_add hnow hcut)) (clock.le_reach _)

end Eventually.Clock
