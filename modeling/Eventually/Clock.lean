import Eventually.Duration

namespace Eventually

-- Waits end only at whole multiples of a granule after the start. A clock may cut long sleeps
-- short, and it may have a horizon, from which on it cannot count.
structure Clock where
  granule : Nat
  longest : Option Duration
  horizon : Option Duration
  granule_pos : 0 < granule
  longest_pos : ∀ wait ∈ longest, 0 < wait.nanos

namespace Clock

-- Whole milliseconds, in seconds that are counted in 63 bits, and no sleep of more than thirty
-- years of 365 days.
def milliseconds : Clock where
  granule := 1000000
  longest := some (.ofSeconds 946080000)
  horizon := some (.ofSeconds 9223372036854775807)
  granule_pos := by decide
  longest_pos := by
    rintro _ ⟨⟩
    decide

-- The first multiple of the granule that is not before a time.
def reach (clock : Clock) (time : Duration) : Duration :=
  ⟨(time.nanos + (clock.granule - 1)) / clock.granule * clock.granule⟩

-- How much of a sleep is really slept.
def cut (clock : Clock) (wait : Duration) : Duration :=
  clock.longest.elim wait fun longest => ⟨min wait.nanos longest.nanos⟩

-- When a sleep of the given length ends that begins now.
def wake (clock : Clock) (now wait : Duration) : Duration :=
  clock.reach ⟨now.nanos + (clock.cut wait).nanos⟩

-- When a delay ends that begins now, which is at once if there is none.
def delayed (clock : Clock) (now delay : Duration) : Duration :=
  if delay.nanos = 0 then now else clock.wake now delay

def isBeyond (clock : Clock) (time : Duration) : Bool :=
  clock.horizon.any fun horizon => horizon.nanos ≤ time.nanos

-- When a budget runs out that is given now. Budgets are not cut like sleeps, but one that would
-- last beyond the horizon is.
def deadline (clock : Clock) (now budget : Duration) : Duration :=
  if clock.isBeyond ⟨now.nanos + budget.nanos⟩ then clock.wake now budget
  else clock.reach ⟨now.nanos + budget.nanos⟩

theorem le_reach (clock : Clock) (time : Duration) : time.nanos ≤ (clock.reach time).nanos := by
  have hdiv := Nat.div_add_mod (time.nanos + (clock.granule - 1)) clock.granule
  have hmod := Nat.mod_lt (time.nanos + (clock.granule - 1)) clock.granule_pos
  have hpos := clock.granule_pos
  simp only [reach]
  rw [Nat.mul_comm] at hdiv
  omega

theorem cut_pos (clock : Clock) {wait : Duration} (hwait : 0 < wait.nanos) :
    0 < (clock.cut wait).nanos := by
  have hpos := clock.longest_pos
  simp only [cut]
  cases hlongest : clock.longest with
  | none => exact hwait
  | some longest =>
      have hlong := hpos longest hlongest
      simp only [Option.elim]
      omega

theorem le_wake (clock : Clock) (now wait : Duration) :
    now.nanos ≤ (clock.wake now wait).nanos :=
  Nat.le_trans (Nat.le_add_right ..) (clock.le_reach _)

theorem lt_wake (clock : Clock) (now : Duration) {wait : Duration} (hwait : 0 < wait.nanos) :
    now.nanos < (clock.wake now wait).nanos :=
  Nat.lt_of_lt_of_le (Nat.lt_add_of_pos_right (clock.cut_pos hwait)) (clock.le_reach _)

theorem le_deadline (clock : Clock) (now budget : Duration) :
    now.nanos ≤ (clock.deadline now budget).nanos := by
  simp only [deadline]
  split
  · exact clock.le_wake now budget
  · exact Nat.le_trans (Nat.le_add_right ..) (clock.le_reach _)

end Clock

end Eventually
