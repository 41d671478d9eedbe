import Eventually.Assertion.Identity
import Eventually.Explanation
import Eventually.Proofs.Assertion.Leaves
import Eventually.Requirement.Item

namespace Eventually

namespace Checklist

-- The second list is the first one with some of the lists in it replaced by their members in place,
-- at any depth that is reached through lists, with any number of handles around them.
inductive Inlined : Checklist α → Checklist α → Prop
  | nil : Inlined nil nil
  | kept (head : Assertion α) (hrest : Inlined rest flatRest) :
      Inlined (cons head rest) (cons head flatRest)
  | within (hlist : head.members? = some members) (hflat : flatHead.members? = some flat)
      (hmembers : Inlined members flat) (hrest : Inlined rest flatRest) :
      Inlined (cons head rest) (cons flatHead flatRest)
  | inPlace (hlist : head.members? = some members) (hmembers : Inlined members flat)
      (hrest : Inlined rest flatRest) : Inlined (cons head rest) (flat.append flatRest)

-- A reading of assertions that finds in a checklist what it finds in the members one after the
-- other, and in a handle on one what it finds in the checklist.
structure SeesThrough (read : Assertion α → γ) (readAll : Checklist α → γ)
    (join : γ → γ → γ) : Prop where
  nil_join : ∀ x, join (readAll nil) x = x
  join_assoc : ∀ x y z, join (join x y) z = join x (join y z)
  cons_eq : ∀ head rest, readAll (cons head rest) = join (read head) (readAll rest)
  all_eq : ∀ members, read (.all members) = readAll members
  shared_eq : ∀ inner members, inner.members? = some members → read (.shared inner) = read inner

section

variable {read : Assertion α → γ} {readAll : Checklist α → γ} {join : γ → γ → γ}

theorem SeesThrough.members_eq (hread : SeesThrough read readAll join) {members : Checklist α} :
    ∀ {a : Assertion α}, a.members? = some members → read a = readAll members
  | .leaf l, hlist => nomatch hlist
  | .all others, hlist => by
      obtain rfl := Option.some.inj hlist
      exact hread.all_eq others
  | .shared inner, hlist => by
      have hinner : inner.members? = some members := hlist
      rw [hread.shared_eq inner members hinner, hread.members_eq hinner]
  | .lift lens inner, hlist => nomatch hlist

theorem SeesThrough.append_eq (hread : SeesThrough read readAll join) :
    ∀ first second, readAll (first.append second) = join (readAll first) (readAll second)
  | nil, second => (hread.nil_join _).symm
  | cons head rest, second => by
      rw [append, hread.cons_eq, hread.append_eq rest second, hread.cons_eq, hread.join_assoc]

theorem Inlined.read_eq (hinlined : Inlined first second)
    (hread : SeesThrough read readAll join) : readAll second = readAll first := by
  induction hinlined with
  | nil => rfl
  | kept head _ ih => rw [hread.cons_eq, hread.cons_eq, ih]
  | within hlist hflat _ _ ihmembers ihrest =>
      rw [hread.cons_eq, hread.cons_eq, hread.members_eq hlist, hread.members_eq hflat, ihmembers,
        ihrest]
  | inPlace hlist _ _ ihmembers ihrest =>
      rw [hread.append_eq, hread.cons_eq, hread.members_eq hlist, ihmembers, ihrest]

end

end Checklist

theorem Assertion.flatten_of_no_members {a : Assertion α} (hnone : a.members? = none) :
    a.flatten = [a] := by
  cases a with
  | leaf l => rfl
  | all members => cases hnone
  | shared inner =>
      have hinner : inner.members? = none := hnone
      simp only [flatten, hinner]
  | lift lens inner => rfl

-- Flattening leaves no list.
theorem Assertion.members?_of_mem_flatten (a : Assertion α) :
    ∀ b ∈ a.flatten, b.members? = none := by
  induction a using Assertion.induct with
  | leaf l => exact List.forall_mem_singleton.mpr rfl
  | all members ih =>
      intro b hb
      rw [flatten, Checklist.flatten_eq_flatMap, List.mem_flatMap] at hb
      obtain ⟨a, ha, hba⟩ := hb
      exact ih a ha b hba
  | shared inner ih =>
      cases hlist : inner.members? with
      | none =>
          simp only [flatten, hlist]
          exact List.forall_mem_singleton.mpr hlist
      | some members => simpa only [flatten, hlist] using ih
  | lift lens inner => exact List.forall_mem_singleton.mpr rfl

theorem Checklist.members?_of_mem_flatten (list : Checklist α) {a : Assertion α}
    (ha : a ∈ list.flatten) : a.members? = none :=
  (Assertion.all list).members?_of_mem_flatten a ha

mutual

theorem Assertion.inlined_members {members : Checklist α} : ∀ a : Assertion α,
    a.members? = some members → members.Inlined (.ofList a.flatten)
  | .leaf l, hlist => nomatch hlist
  | .all others, hlist => by
      obtain rfl := Option.some.inj hlist
      exact others.inlined_flatten
  | .shared inner, hlist => by
      have hinner : inner.members? = some members := hlist
      simpa only [Assertion.flatten, hinner] using inner.inlined_members hinner
  | .lift lens inner, hlist => nomatch hlist

-- With all lists in it replaced a list is what flattening it gives.
theorem Checklist.inlined_flatten : ∀ list : Checklist α, list.Inlined (.ofList list.flatten)
  | .nil => .nil
  | .cons head rest => by
      rw [Checklist.flatten, Checklist.ofList_append]
      cases hlist : head.members? with
      | none =>
          rw [head.flatten_of_no_members hlist]
          exact .kept head rest.inlined_flatten
      | some members => exact .inPlace hlist (head.inlined_members hlist) rest.inlined_flatten

end

namespace Checklist

theorem reports_seesThrough (obj : α) :
    SeesThrough (fun a => a.reports obj) (fun list => list.reports obj) (· ++ ·) where
  nil_join _ := rfl
  join_assoc := List.append_assoc
  cons_eq _ _ := rfl
  all_eq _ := rfl
  shared_eq _ _ _ := rfl

theorem flatten_seesThrough :
    SeesThrough (α := α) Assertion.flatten Checklist.flatten (· ++ ·) where
  nil_join _ := rfl
  join_assoc := List.append_assoc
  cons_eq _ _ := rfl
  all_eq _ := rfl
  shared_eq inner members hlist := by simp only [Assertion.flatten, hlist]

theorem leafDescriptions_seesThrough :
    SeesThrough (α := α) Assertion.leafDescriptions Checklist.leafDescriptions (· ++ ·) where
  nil_join _ := rfl
  join_assoc := List.append_assoc
  cons_eq _ _ := rfl
  all_eq _ := rfl
  shared_eq _ _ _ := rfl

theorem markers_seesThrough :
    SeesThrough (α := α) Assertion.markers Checklist.markers Markers.append where
  nil_join _ := rfl
  join_assoc x y z := by simp only [Markers.append, List.append_assoc]
  cons_eq _ _ := rfl
  all_eq _ := rfl
  shared_eq _ _ _ := rfl

theorem fixers_seesThrough :
    SeesThrough (α := α) Assertion.fixers Checklist.fixers (· ++ ·) where
  nil_join _ := rfl
  join_assoc := List.append_assoc
  cons_eq _ _ := rfl
  all_eq _ := rfl
  shared_eq _ _ _ := rfl

-- One repair after the other, on one copy.
theorem repair_seesThrough :
    SeesThrough (α := α) Assertion.repair Checklist.repair
      fun first second obj => (first obj).andThen second where
  nil_join _ := rfl
  join_assoc x y z := by
    funext obj
    simp only [Repaired.andThen, List.append_assoc]
  cons_eq _ _ := rfl
  all_eq _ := rfl
  shared_eq _ _ _ := rfl

-- Lists that nothing which asks assertions for their meaning can tell apart.
structure Agrees (first second : Checklist α) : Prop where
  test_eq : ∀ obj (found : Findings), second.test obj found = first.test obj found
  passes_eq : ∀ obj, second.passes obj = first.passes obj
  flatten_eq : second.flatten = first.flatten
  names_eq : second.names = first.names
  scopes_eq : second.scopes = first.scopes
  name?_eq : (Assertion.all second).name? = (Assertion.all first).name?
  scope?_eq : (Assertion.all second).scope? = (Assertion.all first).scope?
  key_eq : second.key = first.key
  scopeHint_eq : second.scopeHint = first.scopeHint
  leafDescriptions_eq : second.leafDescriptions = first.leafDescriptions
  fixer?_eq : (Assertion.all second).fixer? = (Assertion.all first).fixer?
  fix_eq : ∀ obj, second.fix obj = first.fix obj
  repair_eq : ∀ obj, second.repair obj = first.repair obj
  explain_eq : ∀ [Writable α] obj, second.explain obj = first.explain obj

theorem Inlined.agrees {first second : Checklist α} (hinlined : first.Inlined second) :
    first.Agrees second := by
  have hreports (obj : α) : second.reports obj = first.reports obj :=
    hinlined.read_eq (reports_seesThrough obj)
  have hmarkers : second.markers = first.markers := hinlined.read_eq markers_seesThrough
  have hfixers : second.fixers = first.fixers := hinlined.read_eq fixers_seesThrough
  have hrepair : second.repair = first.repair := hinlined.read_eq repair_seesThrough
  have htest (obj : α) (found : Findings) : second.test obj found = first.test obj found := by
    have hfirst := (Assertion.all first).test_findings obj found
    have hsecond := (Assertion.all second).test_findings obj found
    rw [Assertion.reports, hreports] at hsecond
    exact hsecond.trans hfirst.symm
  have hhint : second.scopeHint = first.scopeHint := by
    simp only [scopeHint, scopes, hmarkers]
  constructor
  case test_eq => exact htest
  case passes_eq =>
    intro obj
    rw [passes, passes, findings, findings, htest]
  case flatten_eq => exact hinlined.read_eq flatten_seesThrough
  case names_eq => exact congrArg Markers.names hmarkers
  case scopes_eq => exact congrArg Markers.scopes hmarkers
  case name?_eq => simp only [Assertion.name?, names, hmarkers]
  case scope?_eq => simp only [Assertion.scope?, scopes, hmarkers]
  case key_eq => simp only [key, names, hmarkers, hhint]
  case scopeHint_eq => exact hhint
  case leafDescriptions_eq => exact hinlined.read_eq leafDescriptions_seesThrough
  case fixer?_eq => simp only [Assertion.fixer?, hfixers]
  case fix_eq =>
    intro obj
    rw [fix, fix, hfixers]
  case repair_eq =>
    intro obj
    rw [hrepair]
  case explain_eq =>
    intro _ obj
    rw [explain, explain, hrepair]

-- Nesting makes no difference: a list can be replaced by its members wherever it stands in a list,
-- up to a list in which no list is left. Other readings than these count or describe members.
theorem nesting_invisible :
    (∀ list : Checklist α, list.Inlined (ofList list.flatten)) ∧
      ∀ first second : Checklist α, first.Inlined second → first.Agrees second :=
  ⟨inlined_flatten, fun _ _ => Inlined.agrees⟩

def labelled : Assertion Item := .shared (.leaf (ItemRequirement.name "counter").leaf)

def counted : Assertion Item :=
  .lift (Lens.guarded "Item" (fun _ => true) none)
    (.all (.ofList [.leaf (ItemRequirement.value 3).leaf]))

-- A name in a list that stands in a list, behind two handles, beside a list that is empty, and a
-- lifted list. The outer one is replaced, and the inner one in it.
def box : Checklist Item := .ofList [.shared (.shared (.all (.ofList [labelled]))), .all .nil]

def crated : Checklist Item := .ofList [.shared (.all box), counted]

def uncrated : Checklist Item := .ofList [labelled, .all .nil, counted]

theorem nesting_invisible_of_crated :
    crated.Inlined uncrated ∧ crated.describe ≠ uncrated.describe ∧ crated.Agrees uncrated := by
  have hinner : (Assertion.shared (.shared (.all (.ofList [labelled])))).members? =
      some (.ofList [labelled]) := rfl
  have hbox : box.Inlined (.ofList [labelled, .all .nil]) :=
    .inPlace hinner (.kept labelled .nil) (.kept (.all .nil) .nil)
  have houter : (Assertion.shared (.all box)).members? = some box := rfl
  have hinlined : crated.Inlined uncrated := .inPlace houter hbox (.kept counted .nil)
  exact ⟨hinlined, by decide, nesting_invisible.2 crated uncrated hinlined⟩

end Checklist

end Eventually
