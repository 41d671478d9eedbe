import Eventually.Proofs.Assertion.Cooperative
import Mathlib.Algebra.BigOperators.Group.List.Basic
import Mathlib.Algebra.GroupWithZero.Nat
import Mathlib.Data.List.Nodup
import Mathlib.Order.WellFounded

namespace Eventually

namespace Leaf

def failureCount (l : Leaf α) (obj : α) : Nat := ((l.check obj).filterMap Report.failure?).length

theorem failureCount_eq_zero_iff (l : Leaf α) (obj : α) : l.failureCount obj = 0 ↔ l.Holds obj := by
  rw [failureCount, List.length_eq_zero_iff, List.filterMap_eq_nil_iff, Holds]

theorem failureCount_eq_length {l : Leaf α} {messages : List String} {obj : α}
    (hcheck : l.check obj = messages.map .failure) : l.failureCount obj = messages.length := by
  have hmessages : (messages.map Report.failure).filterMap Report.failure? = messages := by
    rw [List.filterMap_map]
    exact List.filterMap_some
  rw [failureCount, hcheck, hmessages]

theorem failureCount_through {lens : Lens α β} {obj : α} {part : β} (l : Leaf β)
    (hget : lens.get? obj = some part) :
    (l.through lens).failureCount obj = l.failureCount part := by
  simp only [failureCount, through, hget]

theorem place_of_mem_filter [DecidableEq ι] {place : ρ → ι} {p : ι} {rs : List ρ} :
    ∀ r ∈ rs.filter (place · = p), place r = p :=
  fun _ hr => of_decide_eq_true (List.mem_filter.mp hr).2

section

variable (leaf : ρ → Leaf α)

-- What requirements report in all.
def failureTotal (rs : List ρ) (obj : α) : Nat :=
  (rs.map fun r => (leaf r).failureCount obj).sum

-- A copy that the fixers of requirements have worked on, one after the other.
def fixAll (rs : List ρ) (obj : α) : α := applyFixers (rs.map fun r => (leaf r).fixer) obj

-- What requirements report of such a copy is no more than what they report of the original.
def Improve (rs : List ρ) : Prop :=
  ∀ obj, failureTotal leaf rs (fixAll leaf rs obj) ≤ failureTotal leaf rs obj

theorem improve_map (f : σ → ρ) (rs : List σ) :
    Improve leaf (rs.map f) ↔ Improve (fun r => leaf (f r)) rs := by
  simp only [Improve, failureTotal, fixAll, List.map_map, Function.comp_def]

theorem failureTotal_split (p : ρ → Bool) (rs : List ρ) (obj : α) :
    failureTotal leaf rs obj =
      failureTotal leaf (rs.filter p) obj + failureTotal leaf (rs.filter fun r => !p r) obj := by
  have hperm := (List.filter_append_perm p rs).map fun r => (leaf r).failureCount obj
  rw [failureTotal, ← hperm.sum_eq, List.map_append, List.sum_append]
  rfl

-- Totals are compared place by place. The induction is on the number of requirements, those on the
-- place of the first one being taken off.
theorem failureTotal_le_of_places [DecidableEq ι] (place : ρ → ι) {a b : α} : ∀ rs : List ρ,
    (∀ p, failureTotal leaf (rs.filter (place · = p)) a ≤
      failureTotal leaf (rs.filter (place · = p)) b) →
    failureTotal leaf rs a ≤ failureTotal leaf rs b
  | [], _ => Nat.le_refl 0
  | r :: rest, hplaces => by
      let others := (r :: rest).filter fun s => !decide (place s = place r)
      have hothers : failureTotal leaf others a ≤ failureTotal leaf others b := by
        refine failureTotal_le_of_places place others fun p => ?_
        by_cases hp : p = place r
        · have hnone : others.filter (place · = p) = [] := by simp [others, hp]
          rw [hnone]
          exact Nat.le_refl 0
        · have hsame : others.filter (place · = p) = (r :: rest).filter (place · = p) := by
            rw [List.filter_filter]
            refine List.filter_congr fun s _ => ?_
            by_cases hs : place s = p <;> simp [hs, hp]
          rw [hsame]
          exact hplaces p
      rw [failureTotal_split leaf (fun s => place s = place r) (r :: rest) a,
        failureTotal_split leaf (fun s => place s = place r) (r :: rest) b]
      exact Nat.add_le_add (hplaces (place r)) hothers
termination_by rs => rs.length
decreasing_by
  have hle := List.length_filter_le (fun s => !decide (place s = place r)) rest
  simp only [List.filter_cons, decide_true, Bool.not_true, Bool.false_eq_true, ↓reduceIte,
    List.length_cons]
  omega

end

-- Requirements that each look at one place of an object and change nothing at the others. Objects
-- agree at a place in what is there, and what is there is possible beside anything elsewhere.
structure Placed (leaf : ρ → Leaf α) (place : ρ → ι) (Agree : ι → α → α → Prop) : Prop where
  equivalence : ∀ p, Equivalence (Agree p)
  check_eq : ∀ r a b, Agree (place r) a b → (leaf r).check a = (leaf r).check b
  agree_fix : ∀ r, ∀ fix ∈ (leaf r).fixer, ∀ a b, Agree (place r) a b →
    Agree (place r) (fix a) (fix b)
  agree_elsewhere : ∀ r, ∀ fix ∈ (leaf r).fixer, ∀ p, place r ≠ p → ∀ a, Agree p (fix a) a
  exists_blend : ∀ p a b, ∃ c, Agree p c a ∧ ∀ q, q ≠ p → Agree q c b

namespace Placed

variable {leaf : ρ → Leaf α} {place : ρ → ι} {Agree : ι → α → α → Prop}

theorem failureTotal_eq (hplaced : Placed leaf place Agree) {rs : List ρ} {a b : α}
    (hagree : ∀ r ∈ rs, Agree (place r) a b) : failureTotal leaf rs a = failureTotal leaf rs b := by
  refine congrArg List.sum (List.map_congr_left fun r hr => ?_)
  rw [failureCount, hplaced.check_eq r a b (hagree r hr)]
  rfl

variable [DecidableEq ι]

-- At one place only the fixers for that place make a difference.
theorem agree_fixAll (hplaced : Placed leaf place Agree) (p : ι) (rs : List ρ) {a b : α}
    (hab : Agree p a b) :
    Agree p (fixAll leaf rs a) (fixAll leaf (rs.filter (place · = p)) b) := by
  induction rs generalizing a b with
  | nil => exact hab
  | cons r rest ih =>
      simp only [fixAll, applyFixers, List.map_cons, List.foldl_cons] at ih ⊢
      by_cases hr : place r = p
      · simp only [List.filter_cons, hr, decide_true, ↓reduceIte, List.map_cons, List.foldl_cons]
        refine ih ?_
        cases hfixer : (leaf r).fixer with
        | none => exact hab
        | some fix =>
            subst hr
            exact hplaced.agree_fix r fix hfixer a b hab
      · simp only [List.filter_cons, hr, decide_false, Bool.false_eq_true, ↓reduceIte]
        refine ih ?_
        cases hfixer : (leaf r).fixer with
        | none => exact hab
        | some fix =>
            exact (hplaced.equivalence p).trans (hplaced.agree_elsewhere r fix hfixer p hr a) hab

theorem failureTotal_fixAll (hplaced : Placed leaf place Agree) (p : ι) (rs : List ρ) {a b : α}
    (hab : Agree p a b) :
    failureTotal leaf (rs.filter (place · = p)) (fixAll leaf rs a) =
      failureTotal leaf (rs.filter (place · = p))
        (fixAll leaf (rs.filter (place · = p)) b) := by
  refine hplaced.failureTotal_eq fun r hr => ?_
  obtain rfl := place_of_mem_filter r hr
  exact hplaced.agree_fixAll (place r) rs hab

-- Whether fixing makes things worse is decided at each place by itself. Where it does so at one
-- place, it does so on the whole for an object that could not be any better elsewhere.
theorem improve_iff (hplaced : Placed leaf place Agree) (rs : List ρ) :
    Improve leaf rs ↔ ∀ p, Improve leaf (rs.filter (place · = p)) := by
  refine ⟨fun himprove p obj => ?_, fun himprove obj => ?_⟩
  · have : Nonempty α := ⟨obj⟩
    let elsewhere := failureTotal leaf (rs.filter fun r => !decide (place r = p))
    let best := Function.argmin elsewhere
    obtain ⟨blend, hhere, hother⟩ := hplaced.exists_blend p obj best
    have hblend : elsewhere blend = elsewhere best := by
      refine hplaced.failureTotal_eq fun r hr => hother (place r) ?_
      simpa using (List.mem_filter.mp hr).2
    have hbefore : failureTotal leaf (rs.filter (place · = p)) blend =
        failureTotal leaf (rs.filter (place · = p)) obj := by
      refine hplaced.failureTotal_eq fun r hr => ?_
      obtain rfl := place_of_mem_filter r hr
      exact hhere
    have hafter := hplaced.failureTotal_fixAll p rs hhere
    have hbest : elsewhere best ≤ elsewhere (fixAll leaf rs blend) :=
      Function.argmin_le elsewhere (fixAll leaf rs blend)
    have hle := himprove blend
    rw [failureTotal_split leaf (place · = p), hafter,
      failureTotal_split leaf (place · = p) rs blend, hbefore] at hle
    change _ + elsewhere _ ≤ _ + elsewhere _ at hle
    omega
  · refine failureTotal_le_of_places leaf place rs fun p => ?_
    rw [hplaced.failureTotal_fixAll p rs ((hplaced.equivalence p).refl obj)]
    exact himprove p obj

end Placed

-- No requirement is made more often than the one that is made last.
def LastPrevails [DecidableEq ρ] (rs : List ρ) : Prop :=
  ∀ last ∈ rs.getLast?, ∀ r ∈ rs, rs.count r ≤ rs.count last

instance [DecidableEq ρ] (rs : List ρ) : Decidable (LastPrevails rs) :=
  inferInstanceAs (Decidable (∀ last ∈ rs.getLast?, ∀ r ∈ rs, rs.count r ≤ rs.count last))

theorem lastPrevails_of_nodup [DecidableEq ρ] {rs : List ρ} (hnodup : rs.Nodup) :
    LastPrevails rs := by
  intro last hlast r hr
  exact Nat.le_trans (List.nodup_iff_count_le_one.mp hnodup r)
    (List.count_pos_iff.mpr (List.mem_of_getLast? hlast))

-- Requirements that each bring about what they ask for and report at most one failure, and of which
-- no two on the same place hold together.
structure Exclusive (leaf : ρ → Leaf α) (place : ρ → ι) : Prop where
  single : ∀ r obj, (leaf r).failureCount obj ≤ 1
  establishes : ∀ r, ∃ fix ∈ (leaf r).fixer, ∀ obj, (leaf r).Holds (fix obj)
  eq_of_holds : ∀ r s obj, place r = place s → (leaf r).Holds obj → (leaf s).Holds obj → r = s

namespace Exclusive

theorem through {leaf : ρ → Leaf β} {place : ρ → ι} (hexclusive : Exclusive leaf place)
    {lens : Lens α β} (hlawful : lens.Lawful) (hwrites : lens.access?.isSome) :
    Exclusive (fun r => (leaf r).through lens) place where
  single r obj := by
    obtain ⟨part, hpart⟩ := Option.isSome_iff_exists.mp (hlawful.get?_isSome obj)
    rw [failureCount_through (leaf r) hpart]
    exact hexclusive.single r part
  establishes r := by
    obtain ⟨fix, hfix, hestablishes⟩ := hexclusive.establishes r
    have hfixable : (leaf r).fixer.isSome := Option.isSome_of_mem hfix
    obtain ⟨fixer, hfixer⟩ :=
      Option.isSome_iff_exists.mp ((lens.fixer?_isSome_iff _).mpr ⟨hwrites, hfixable⟩)
    refine ⟨fixer, hfixer, fun obj => ?_⟩
    obtain ⟨fixPart, hfixPart, part, _, hafter⟩ := hlawful.get?_fix hfixer obj
    obtain rfl : fix = fixPart := Option.mem_unique hfix hfixPart
    exact ((leaf r).through_holds_iff lens _).mpr ⟨_, hafter, hestablishes part⟩
  eq_of_holds r s obj hplace hr hs := by
    obtain ⟨part, hpart, hr⟩ := ((leaf r).through_holds_iff lens obj).mp hr
    obtain ⟨other, hother, hs⟩ := ((leaf s).through_holds_iff lens obj).mp hs
    obtain rfl : part = other := Option.some.inj (hpart.symm.trans hother)
    exact hexclusive.eq_of_holds r s part hplace hr hs

variable {leaf : ρ → Leaf α} {place : ρ → ι} {rs : List ρ} {p : ι}

theorem failureTotal_of_none (hexclusive : Exclusive leaf place) {obj : α}
    (hnone : ∀ r ∈ rs, ¬(leaf r).Holds obj) : failureTotal leaf rs obj = rs.length := by
  have hone : ∀ r ∈ rs, (leaf r).failureCount obj = 1 := by
    intro r hr
    have hfails : (leaf r).failureCount obj ≠ 0 := fun hzero =>
      hnone r hr ((failureCount_eq_zero_iff _ obj).mp hzero)
    have hle := hexclusive.single r obj
    omega
  rw [failureTotal, List.map_congr_left hone, List.map_const', List.sum_replicate_nat, Nat.mul_one]

theorem last_holds (hexclusive : Exclusive leaf place) {last : ρ} (hlast : last ∈ rs.getLast?)
    (obj : α) : (leaf last).Holds (fixAll leaf rs obj) := by
  obtain ⟨fix, hfix, hestablishes⟩ := hexclusive.establishes last
  obtain ⟨front, rfl⟩ := List.getLast?_eq_some_iff.mp hlast
  simp only [fixAll, applyFixers, List.map_append, List.map_cons, List.map_nil, List.foldl_append,
    List.foldl_cons, List.foldl_nil, Option.mem_def.mp hfix, Option.elim]
  exact hestablishes _

variable [DecidableEq ρ]

-- Of requirements on one place, all fail but those that are like the one that holds.
theorem failureTotal_add_count (hexclusive : Exclusive leaf place) (hrs : ∀ s ∈ rs, place s = p)
    {r : ρ} (hr : place r = p) {obj : α} (hholds : (leaf r).Holds obj) :
    failureTotal leaf rs obj + rs.count r = rs.length := by
  induction rs with
  | nil => rfl
  | cons s rest ih =>
      obtain ⟨hs, hrest⟩ := List.forall_mem_cons.mp hrs
      have hcount : (leaf s).failureCount obj + (if s = r then 1 else 0) = 1 := by
        by_cases hsr : s = r
        · rw [if_pos hsr, hsr, (failureCount_eq_zero_iff _ obj).mpr hholds]
        · have hfails : (leaf s).failureCount obj ≠ 0 := fun hzero =>
            hsr (hexclusive.eq_of_holds s r obj (hs.trans hr.symm)
              ((failureCount_eq_zero_iff _ obj).mp hzero) hholds)
          have hle := hexclusive.single s obj
          rw [if_neg hsr]
          omega
      have htotal := ih hrest
      simp only [failureTotal, List.map_cons, List.sum_cons, List.count_cons, beq_iff_eq,
        List.length_cons] at htotal ⊢
      omega

-- On one place the last requirement wins, which is for the better exactly if none is made more
-- often.
theorem improve_iff (hexclusive : Exclusive leaf place) (hrs : ∀ s ∈ rs, place s = p)
    (start : α) : Improve leaf rs ↔ LastPrevails rs := by
  have hcopy : ∀ last ∈ rs.getLast?, ∀ obj,
      failureTotal leaf rs (fixAll leaf rs obj) + rs.count last = rs.length :=
    fun last hlast obj => hexclusive.failureTotal_add_count hrs
      (hrs last (List.mem_of_getLast? hlast)) (hexclusive.last_holds hlast obj)
  constructor
  · intro himprove last hlast r hr
    obtain ⟨fix, _, hestablishes⟩ := hexclusive.establishes r
    have hheld := hexclusive.failureTotal_add_count hrs (hrs r hr) (hestablishes start)
    have hafter := hcopy last hlast (fix start)
    have hle := himprove (fix start)
    omega
  · intro hprevails obj
    cases hlast : rs.getLast? with
    | none =>
        obtain rfl := List.getLast?_eq_none_iff.mp hlast
        exact Nat.le_refl 0
    | some last =>
        have hafter := hcopy last hlast obj
        by_cases hheld : ∃ r ∈ rs, (leaf r).Holds obj
        · obtain ⟨r, hr, hholds⟩ := hheld
          have hbefore := hexclusive.failureTotal_add_count hrs (hrs r hr) hholds
          have hle := hprevails last hlast r hr
          omega
        · have hnone : ∀ r ∈ rs, ¬(leaf r).Holds obj := fun r hr hholds => hheld ⟨r, hr, hholds⟩
          have hbefore := hexclusive.failureTotal_of_none hnone
          omega

end Exclusive

namespace Writes

variable [DecidableEq ι] {leaf : ρ → Leaf α} {read : α → ι → V} {place : ρ → ι} {wanted : ρ → V}

theorem placed (hwrites : Writes leaf read place wanted)
    (hcheck : ∀ r a b, read a (place r) = read b (place r) → (leaf r).check a = (leaf r).check b)
    (hblend : ∀ p a b, ∃ c, read c p = read a p ∧ ∀ q, q ≠ p → read c q = read b q) :
    Placed leaf place fun p a b => read a p = read b p where
  equivalence _ := ⟨fun _ => rfl, Eq.symm, Eq.trans⟩
  check_eq := hcheck
  agree_fix := by
    intro r fix hfix a b _
    rw [hwrites.read_fix hfix, hwrites.read_fix hfix, if_pos rfl, if_pos rfl]
  agree_elsewhere := by
    intro r fix hfix p hp a
    rw [hwrites.read_fix hfix, if_neg hp]
  exists_blend := hblend

theorem exclusive (hwrites : Writes leaf read place wanted)
    (hsingle : ∀ r obj, (leaf r).failureCount obj ≤ 1)
    (heq : ∀ r s, place r = place s → wanted r = wanted s → r = s) : Exclusive leaf place where
  single := hsingle
  establishes := by
    intro r
    obtain ⟨fix, hfix, hread⟩ := hwrites.exists_fix r
    refine ⟨fix, hfix, fun obj => ?_⟩
    rw [hwrites.holds_iff, hread, if_pos rfl]
  eq_of_holds := by
    intro r s obj hplace hr hs
    rw [hwrites.holds_iff] at hr hs
    exact heq r s hplace (by rw [← hr, ← hs, hplace])

end Writes

end Leaf

namespace Checklist

-- A repaired copy fails no more often than the original did.
def Monotone (list : Checklist α) : Prop :=
  ∀ obj, (list.failures (list.repair obj).object).length ≤ (list.failures obj).length

theorem Lawful.length_failures {list : Checklist α} (hlawful : list.Lawful) {leaf : ρ → Leaf α}
    {rs : List ρ} (hleaves : list.leaves = rs.map leaf) (obj : α) :
    (list.failures obj).length = Leaf.failureTotal leaf rs obj := by
  rw [failures, findings_eq, hlawful.reports_eq obj, hleaves]
  simp only [List.filterMap_flatMap, List.length_flatMap, List.map_map]
  rfl

theorem Lawful.monotone_iff {list : Checklist α} (hlawful : list.Lawful) {leaf : ρ → Leaf α}
    {rs : List ρ} (hleaves : list.leaves = rs.map leaf) :
    list.Monotone ↔ Leaf.Improve leaf rs := by
  refine forall_congr' fun obj => ?_
  have hcopy : (list.repair obj).object = Leaf.fixAll leaf rs obj := by
    rw [hlawful.repair_object, hleaves, List.map_map]
    rfl
  rw [hlawful.length_failures hleaves, hlawful.length_failures hleaves, hcopy]

end Checklist

end Eventually
