import Eventually.Proofs.Assertion.Fixable
import Mathlib.Data.Set.Image

namespace Eventually

namespace Leaf

-- Some object satisfies both.
def Compatible (a b : Leaf α) : Prop := ∃ obj, a.Holds obj ∧ b.Holds obj

-- The fixers of `others` make no difference to what leaves of `family` report.
def Undisturbed (family others : Set (Leaf α)) : Prop :=
  ∀ a ∈ family, ∀ b ∈ others, ∀ fix ∈ b.fixer, ∀ obj, a.check (fix obj) = a.check obj

-- Each fixer does what its own leaf asks for, and undoes no leaf of the family that its own leaf
-- is compatible with.
structure Cooperative (family : Set (Leaf α)) : Prop where
  establishes : ∀ a ∈ family, ∀ fix ∈ a.fixer, ∀ obj, a.Holds (fix obj)
  keeps : ∀ a ∈ family, ∀ b ∈ family, a.Compatible b →
    ∀ fix ∈ b.fixer, ∀ obj, a.Holds obj → a.Holds (fix obj)

namespace Cooperative

theorem union {first second : Set (Leaf α)} (hfirst : Cooperative first)
    (hsecond : Cooperative second) (hleft : Undisturbed first second)
    (hright : Undisturbed second first) : Cooperative (first ∪ second) where
  establishes := by
    intro a ha
    rcases ha with ha | ha
    · exact hfirst.establishes a ha
    · exact hsecond.establishes a ha
  keeps := by
    intro a ha b hb hab fix hfix obj hobj
    rcases ha with ha | ha <;> rcases hb with hb | hb
    · exact hfirst.keeps a ha b hb hab fix hfix obj hobj
    · rwa [Holds, hleft a ha b hb fix hfix obj]
    · rwa [Holds, hright a ha b hb fix hfix obj]
    · exact hsecond.keeps a ha b hb hab fix hfix obj hobj

-- What holds before a run of fixers still holds behind it.
theorem holds_applyFixers {family : Set (Leaf α)} (hfamily : Cooperative family) {a : Leaf α}
    (ha : a ∈ family) (leaves : List (Leaf α)) (hleaves : ∀ b ∈ leaves, b.Fixable → b ∈ family)
    (hcompatible : ∀ b ∈ leaves, b.Fixable → a.Compatible b) (obj : α) (hobj : a.Holds obj) :
    a.Holds (applyFixers (leaves.map Leaf.fixer) obj) := by
  induction leaves generalizing obj with
  | nil => exact hobj
  | cons b rest ih =>
      obtain ⟨hb, hrest⟩ := List.forall_mem_cons.mp hleaves
      obtain ⟨hab, hcrest⟩ := List.forall_mem_cons.mp hcompatible
      simp only [applyFixers, List.map_cons, List.foldl_cons] at ih ⊢
      refine ih hrest hcrest _ ?_
      cases hfixer : b.fixer with
      | none => exact hobj
      | some fix =>
          have hfixable : b.Fixable := by rw [Fixable, hfixer, Option.isSome_some]
          exact hfamily.keeps a ha b (hb hfixable) (hab hfixable) fix hfixer obj hobj

theorem holds_after_own_fixer {family : Set (Leaf α)} (hfamily : Cooperative family)
    (before : List (Leaf α)) (a : Leaf α) (after : List (Leaf α)) (hfixable : a.Fixable)
    (ha : a ∈ family) (hafter : ∀ b ∈ after, b.Fixable → b ∈ family)
    (hcompatible : ∀ b ∈ after, b.Fixable → a.Compatible b) (obj : α) :
    a.Holds (applyFixers ((before ++ a :: after).map Leaf.fixer) obj) := by
  obtain ⟨fix, hfix⟩ := Option.isSome_iff_exists.mp hfixable
  simp only [applyFixers, List.map_append, List.map_cons, List.foldl_append, List.foldl_cons, hfix]
  refine hfamily.holds_applyFixers ha after hafter hcompatible _ ?_
  exact hfamily.establishes a ha fix hfix _

end Cooperative

-- Requirements that each ask for a value at one place of an object, and that write it there and
-- change nothing anywhere else.
structure Writes [DecidableEq ι] (leaf : ρ → Leaf α) (read : α → ι → V) (place : ρ → ι)
    (wanted : ρ → V) : Prop where
  holds_iff : ∀ r obj, (leaf r).Holds obj ↔ read obj (place r) = wanted r
  exists_fix : ∀ r, ∃ fix ∈ (leaf r).fixer, ∀ obj p,
    read (fix obj) p = if place r = p then wanted r else read obj p

namespace Writes

variable [DecidableEq ι] {leaf : ρ → Leaf α} {read : α → ι → V} {place : ρ → ι} {wanted : ρ → V}

theorem read_fix (hwrites : Writes leaf read place wanted) {r : ρ} {fix : α → α}
    (hfix : fix ∈ (leaf r).fixer) (obj : α) (p : ι) :
    read (fix obj) p = if place r = p then wanted r else read obj p := by
  obtain ⟨own, hown, hread⟩ := hwrites.exists_fix r
  obtain rfl := Option.mem_unique hown hfix
  exact hread obj p

theorem cooperative (hwrites : Writes leaf read place wanted) : Cooperative (Set.range leaf) where
  establishes := by
    rintro _ ⟨r, rfl⟩ fix hfix obj
    rw [hwrites.holds_iff, hwrites.read_fix hfix, if_pos rfl]
  keeps := by
    rintro _ ⟨r, rfl⟩ _ ⟨s, rfl⟩ ⟨both, hr, hs⟩ fix hfix obj hobj
    rw [hwrites.holds_iff] at hr hs hobj ⊢
    rw [hwrites.read_fix hfix]
    split
    · rename_i hplace
      rw [← hs, ← hr, hplace]
    · exact hobj

end Writes

end Leaf

-- A fixer behind a lawful lens replaces the part by the fixed part.
theorem Lens.Lawful.get?_fix {lens : Lens α β} (hlawful : lens.Lawful) {inner : Option (β → β)}
    {fix : α → α} (hfix : fix ∈ lens.fixer? inner) (obj : α) :
    ∃ fixPart ∈ inner, ∃ part, lens.get? obj = some part ∧
      lens.get? (fix obj) = some (fixPart part) := by
  simp only [fixer?] at hfix
  split at hfix
  · rename_i reach fixPart hreach
    obtain ⟨x, hx, hget, _⟩ := hlawful.reach_eq reach hreach obj
    have hput := hlawful.get?_put hreach hx (fixPart x.part)
    obtain rfl := Option.some.inj hfix
    exact ⟨fixPart, rfl, x.part, hget, by simpa only [hx, Access.change] using hput⟩
  · cases hfix

theorem Leaf.Cooperative.through {family : Set (Leaf β)} (hfamily : Cooperative family)
    {lens : Lens α β} (hlawful : lens.Lawful) : Cooperative (Leaf.through lens '' family) where
  establishes := by
    intro l hl fix hfix obj
    obtain ⟨a, ha, rfl⟩ := hl
    obtain ⟨fixPart, hfixPart, part, _, hafter⟩ := hlawful.get?_fix hfix obj
    have hholds := hfamily.establishes a ha fixPart hfixPart part
    exact (a.through_holds_iff lens _).mpr ⟨fixPart part, hafter, hholds⟩
  keeps := by
    intro k hk l hl hcompatible fix hfix obj hobj
    obtain ⟨a, ha, rfl⟩ := hk
    obtain ⟨b, hb, rfl⟩ := hl
    obtain ⟨both, haboth, hbboth⟩ := hcompatible
    obtain ⟨fixPart, hfixPart, part, hbefore, hafter⟩ := hlawful.get?_fix hfix obj
    obtain ⟨shared, hshared, hashared⟩ := (a.through_holds_iff lens both).mp haboth
    obtain ⟨shared', hshared', hbshared⟩ := (b.through_holds_iff lens both).mp hbboth
    obtain rfl : shared = shared' := Option.some.inj (hshared.symm.trans hshared')
    obtain ⟨part', hpart', hapart⟩ := (a.through_holds_iff lens obj).mp hobj
    obtain rfl : part = part' := Option.some.inj (hbefore.symm.trans hpart')
    have hholds := hfamily.keeps a ha b hb ⟨shared, hashared, hbshared⟩ fixPart hfixPart part hapart
    exact (a.through_holds_iff lens _).mpr ⟨fixPart part, hafter, hholds⟩

namespace Checklist

-- A repaired copy meets every fixable leaf that no later one contradicts, passes when nothing is
-- beyond repair or contradictory, and takes the side of the later of two leaves in conflict.
structure Repairs (list : Checklist α) : Prop where
  kept : ∀ before a after, list.leaves = before ++ a :: after → a.Fixable →
    (∀ b ∈ after, b.Fixable → a.Compatible b) → ∀ obj, a.Holds (list.repair obj).object
  passes : (∀ a ∈ list.leaves, a.Fixable) → (∃ obj, list.passes obj) →
    ∀ obj, list.passes (list.repair obj).object
  last_wins : ∀ before a between b after,
    list.leaves = before ++ a :: (between ++ b :: after) → b.Fixable → ¬a.Compatible b →
    (∀ c ∈ after, c.Fixable → b.Compatible c) →
    ∀ obj, b.Holds (list.repair obj).object ∧ ¬a.Holds (list.repair obj).object

theorem Lawful.repairs {list : Checklist α} (hlawful : list.Lawful) {family : Set (Leaf α)}
    (hfamily : Leaf.Cooperative family) (hleaves : ∀ l ∈ list.leaves, l.Fixable → l ∈ family) :
    list.Repairs := by
  have hkept : ∀ before a after, list.leaves = before ++ a :: after → a.Fixable →
      (∀ b ∈ after, b.Fixable → a.Compatible b) → ∀ obj, a.Holds (list.repair obj).object := by
    intro before a after hsplit hfixable hcompatible obj
    rw [hlawful.repair_object obj, hsplit]
    refine hfamily.holds_after_own_fixer before a after hfixable ?_ ?_ hcompatible obj
    · exact hleaves a (by simp [hsplit]) hfixable
    · exact fun b hb => hleaves b (by simp [hsplit, hb])
  refine ⟨hkept, ?_, ?_⟩
  · intro hfixable hmet obj
    obtain ⟨met, hmet⟩ := hmet
    have hholds := list.leaf_holds_of_passes met hmet
    refine (hlawful.passes_iff _).mpr fun l hl => ?_
    obtain ⟨before, after, hsplit⟩ := List.append_of_mem hl
    refine hkept before l after hsplit (hfixable l hl) (fun b hb _ => ?_) obj
    exact ⟨met, hholds l hl, hholds b (by simp [hsplit, hb])⟩
  · intro before a between b after hsplit hfixable hconflict hcompatible obj
    have hb : b.Holds (list.repair obj).object :=
      hkept (before ++ a :: between) b after (by simp [hsplit]) hfixable hcompatible obj
    exact ⟨hb, fun ha => hconflict ⟨_, ha, hb⟩⟩

end Checklist

end Eventually
