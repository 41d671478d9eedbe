import Eventually.Proofs.Assertion.Nesting
import Eventually.Proofs.Poll.Selection
import Eventually.Requirement.Item

namespace Eventually

namespace Checklist

-- The second list has the members of the first one in some order, and so have the lists among them,
-- at any depth that is reached through lists and handles. A lift stays what it is, with all that is
-- behind it.
inductive Permuted : Checklist α → Checklist α → Prop
  | nil : Permuted nil nil
  | kept (head : Assertion α) (hrest : Permuted rest others) :
      Permuted (cons head rest) (cons head others)
  | within (hlist : head.members? = some members) (hother : other.members? = some inside)
      (hmembers : Permuted members inside) (hrest : Permuted rest others) :
      Permuted (cons head rest) (cons other others)
  | swapped (first second : Assertion α) (rest : Checklist α) :
      Permuted (cons first (cons second rest)) (cons second (cons first rest))
  | trans (hfirst : Permuted list other) (hsecond : Permuted other third) : Permuted list third

theorem permuted_ofList {members others : List (Assertion α)} (hperm : members.Perm others) :
    (ofList members).Permuted (ofList others) := by
  induction hperm with
  | nil => exact .nil
  | cons head _ ih => exact .kept head ih
  | swap first second rest => exact .swapped second first (ofList rest)
  | trans _ _ ihfirst ihsecond => exact ihfirst.trans ihsecond

theorem permuted_of_perm {list other : Checklist α} (hperm : list.toList.Perm other.toList) :
    list.Permuted other := by
  have hpermuted := permuted_ofList hperm
  rwa [list.ofList_toList, other.ofList_toList] at hpermuted

-- Every member reports on its own, so that nothing but the order of the reports is another one.
theorem Permuted.reports_perm {list other : Checklist α} (hpermuted : list.Permuted other)
    (obj : α) : (list.reports obj).Perm (other.reports obj) := by
  induction hpermuted with
  | nil => exact .refl []
  | kept head _ ih => exact ih.append_left (head.reports obj)
  | within hlist hother _ _ ihmembers ihrest =>
      have hread := (reports_seesThrough obj).members_eq hlist
      have hreread := (reports_seesThrough obj).members_eq hother
      simp only [reports, hread, hreread]
      exact ihmembers.append ihrest
  | swapped first second rest =>
      exact List.perm_append_comm_assoc (first.reports obj) (second.reports obj) (rest.reports obj)
  | trans _ _ ihfirst ihsecond => exact ihfirst.trans ihsecond

end Checklist

-- Both are prevented by a view error, which need not be the same, or their results agree.
inductive JudgedAlike (agree : β → γ → Prop) : Except ViewError β → Except ViewError γ → Prop
  | unviewable (error other : ViewError) : JudgedAlike agree (.error error) (.error other)
  | viewed (hagree : agree result other) : JudgedAlike agree (.ok result) (.ok other)

namespace Scan

-- The same candidate, with its failures in any order.
structure SameCandidate (first second : α × List String) : Prop where
  object_eq : first.1 = second.1
  failures_perm : first.2.Perm second.2

inductive Same : Scan α → Scan α → Prop
  | matched (obj : α) : Same (.matched obj) (.matched obj)
  | unmatched (hclosest : Option.Rel SameCandidate closest other) :
      Same (.unmatched closest) (.unmatched other)

-- Scans that are alike come to the same match, if to any.
theorem matched_iff_of_alike {first second : Except ViewError (Scan α)}
    (halike : JudgedAlike Same first second) (obj : α) :
    first = .ok (.matched obj) ↔ second = .ok (.matched obj) := by
  cases halike with
  | unviewable => exact iff_of_false nofun nofun
  | viewed hsame =>
      cases hsame with
      | matched => exact Iff.rfl
      | unmatched => exact iff_of_false nofun nofun

-- Who leads is told by how many failures there are.
theorem closer_same {best other : Option (α × List String)}
    (hbest : Option.Rel SameCandidate best other) (obj : α) (hfailures : failures.Perm others) :
    Option.Rel SameCandidate (closer best obj failures) (closer other obj others) := by
  have hnew : SameCandidate (obj, failures) (obj, others) := ⟨rfl, hfailures⟩
  cases hbest with
  | none => exact .some hnew
  | @some leading counterpart hleading =>
      obtain ⟨_, fewest⟩ := leading
      obtain ⟨_, least⟩ := counterpart
      have hcount : failures.length = others.length := hfailures.length_eq
      have hfewest : fewest.length = least.length := hleading.failures_perm.length_eq
      unfold closer
      by_cases hfewer : others.length < least.length
      · simpa only [hcount, hfewest, hfewer, ↓reduceIte] using .some hnew
      · simpa only [hcount, hfewest, hfewer, ↓reduceIte] using .some hleading

end Scan

namespace Checklist

section

variable {list other : Checklist α}

theorem Permuted.failures_perm (hpermuted : list.Permuted other) (obj : α) :
    (list.failures obj).Perm (other.failures obj) := by
  unfold failures
  rw [findings_eq, findings_eq]
  exact (hpermuted.reports_perm obj).filterMap Report.failure?

theorem Permuted.viewError?_isSome_iff (hpermuted : list.Permuted other) (obj : α) :
    (list.viewError? obj).isSome ↔ (other.viewError? obj).isSome := by
  unfold viewError?
  rw [List.findSome?_isSome_iff, List.findSome?_isSome_iff]
  exact exists_congr fun r => and_congr_left' (hpermuted.reports_perm obj).mem_iff

theorem Permuted.evaluate_alike (hpermuted : list.Permuted other) (obj : α) :
    JudgedAlike List.Perm (list.evaluate obj) (other.evaluate obj) := by
  have hview := hpermuted.viewError?_isSome_iff obj
  rw [evaluate_eq, evaluate_eq]
  cases hfirst : list.viewError? obj with
  | none =>
      have hsecond : other.viewError? obj = none := by simpa [hfirst] using hview
      rw [hsecond]
      exact .viewed (hpermuted.failures_perm obj)
  | some error =>
      obtain ⟨twin, hsecond⟩ := Option.isSome_iff_exists.mp (hview.mp (hfirst ▸ rfl))
      rw [hsecond]
      exact .unviewable error twin

-- Two scans of the same candidates stay together, as long as the candidates are judged alike and the
-- leaders are the same when they begin.
theorem scanFrom_alike
    (hjudged : ∀ obj, JudgedAlike List.Perm (list.evaluate obj) (other.evaluate obj))
    (candidates : List α) {best counterpart : Option (α × List String)}
    (hbest : Option.Rel Scan.SameCandidate best counterpart) :
    JudgedAlike Scan.Same (list.scanFrom best candidates)
      (other.scanFrom counterpart candidates) := by
  induction candidates generalizing best counterpart with
  | nil => exact .viewed (.unmatched hbest)
  | cons obj rest ih =>
      have hobj := hjudged obj
      unfold scanFrom
      generalize list.evaluate obj = judged, other.evaluate obj = rejudged at hobj
      cases hobj with
      | unviewable error twin => exact .unviewable error twin
      | viewed hperm =>
          have hempty := hperm.isEmpty_eq
          simp only [hempty]
          split
          · exact .viewed (.matched obj)
          · exact ih (Scan.closer_same hbest obj hperm)

theorem Permuted.scan_alike (hpermuted : list.Permuted other) (candidates : List α) :
    JudgedAlike Scan.Same (list.scan candidates) (other.scan candidates) :=
  scanFrom_alike hpermuted.evaluate_alike candidates .none

-- A wait for some match ends with the same object, whichever answer it is that ends it.
theorem Permuted.selects_iff (hpermuted : list.Permuted other) (e : Exchange (List α)) (obj : α) :
    list.Selects e (.ok obj) ↔ other.Selects e (.ok obj) := by
  have hfirst (candidates : List α) :
      list.FirstMatch candidates obj ↔ other.FirstMatch candidates obj := by
    rw [← scan_eq_matched_iff, ← scan_eq_matched_iff]
    exact Scan.matched_iff_of_alike (hpermuted.scan_alike candidates) obj
  constructor
  · rintro ⟨hanswer, hmatch⟩
    exact .matched hanswer ((hfirst _).mp hmatch)
  · rintro ⟨hanswer, hmatch⟩
    exact .matched hanswer ((hfirst _).mpr hmatch)

end

-- Two lists that say the same of every object, and of all objects that a store may list. Failures
-- may come in another order, and another view error may be the first one.
structure SameVerdicts (list other : Checklist α) : Prop where
  passes_eq : ∀ obj, list.passes obj = other.passes obj
  failures_perm : ∀ obj, (list.failures obj).Perm (other.failures obj)
  viewError_iff : ∀ obj,
    (list.findings obj).viewError.isSome ↔ (other.findings obj).viewError.isSome
  scan_alike : ∀ candidates,
    JudgedAlike Scan.Same (list.scan candidates) (other.scan candidates)
  choice_same : ∀ candidates, (∀ obj ∈ candidates, (list.findings obj).viewError = none) →
    ∃ choice counterpart, list.scan candidates = .ok choice ∧
      other.scan candidates = .ok counterpart ∧ choice.Same counterpart
  selects_iff : ∀ e obj, list.Selects e (.ok obj) ↔ other.Selects e (.ok obj)

-- What an object fails does not depend on the order of the members, nor on that of the members of
-- nested lists, and neither does which candidate is found or comes closest.
theorem verdicts_unordered :
    (∀ {α : Type} (list other : Checklist α), list.toList.Perm other.toList →
      list.Permuted other) ∧
    ∀ {α : Type} (list other : Checklist α), list.Permuted other → list.SameVerdicts other := by
  refine ⟨fun _ _ => permuted_of_perm, fun list other hpermuted => ?_⟩
  constructor
  case passes_eq =>
    intro obj
    rw [passes_eq_isEmpty, passes_eq_isEmpty]
    exact (hpermuted.failures_perm obj).isEmpty_eq
  case failures_perm => exact hpermuted.failures_perm
  case viewError_iff =>
    intro obj
    rw [findings_viewError, findings_viewError]
    exact hpermuted.viewError?_isSome_iff obj
  case scan_alike => exact hpermuted.scan_alike
  case choice_same =>
    intro candidates hviews
    have hviews' : ∀ obj ∈ candidates, list.viewError? obj = none := fun obj hobj =>
      (list.findings_viewError obj).symm.trans (hviews obj hobj)
    have halike := hpermuted.scan_alike candidates
    have hends := scan_ne_error hviews'
    generalize list.scan candidates = first, other.scan candidates = second at halike hends
    cases halike with
    | unviewable error => exact absurd rfl (hends error)
    | viewed hsame => exact ⟨_, _, rfl, rfl, hsame⟩
  case selects_iff => exact hpermuted.selects_iff

-- Only items with a positive value can be viewed.
def whenPositive (inner : Assertion Item) : Assertion Item :=
  .lift (Lens.guarded "Item" (fun item => 0 < item.value) none) inner

def graded : Checklist Item :=
  .ofList [.leaf (ItemRequirement.atLeast 3).leaf,
    whenPositive (.leaf (ItemRequirement.value 4).leaf)]

def regraded : Checklist Item :=
  .ofList [whenPositive (.leaf (ItemRequirement.value 4).leaf),
    .leaf (ItemRequirement.atLeast 3).leaf]

def sorted : Checklist Item :=
  .ofList [.leaf (ItemRequirement.name "counter").leaf, .shared (.all graded),
    .leaf (ItemRequirement.scope "toolchain").leaf]

-- The same members in another order, and so are those of the list among them.
def shuffled : Checklist Item :=
  .ofList [.all regraded, .leaf (ItemRequirement.scope "toolchain").leaf,
    .leaf (ItemRequirement.name "counter").leaf]

theorem verdicts_unordered_of_shuffled :
    let item : Item := ⟨"toolchain", "counter", 1⟩
    let candidates : List Item := [⟨"toolchain", "gauge", 1⟩, item]
    sorted.Permuted shuffled ∧ sorted.SameVerdicts shuffled ∧
      (∀ obj ∈ candidates, (sorted.findings obj).viewError = none) ∧
      sorted.failures item = ["expected at least 3, got 1", "expected value 4, got 1"] ∧
      ∃ failures, (sorted.failures item).Perm failures ∧
        shuffled.scan candidates = .ok (.unmatched (some (item, failures))) := by
  intro item candidates
  have hinside : graded.Permuted regraded := verdicts_unordered.1 graded regraded (.swap _ _ [])
  have hlist : (Assertion.shared (.all graded)).members? = some graded := rfl
  have hother : (Assertion.all regraded).members? = some regraded := rfl
  have hpermuted : sorted.Permuted shuffled :=
    (Permuted.kept _ (.within hlist hother hinside (.kept _ .nil))).trans
      ((Permuted.swapped _ _ _).trans (.kept _ (.swapped _ _ .nil)))
  have hsame := verdicts_unordered.2 sorted shuffled hpermuted
  have hviews : ∀ obj ∈ candidates, (sorted.findings obj).viewError = none := by decide
  have hscan : sorted.scan candidates = .ok (.unmatched (some (item, sorted.failures item))) := by
    cbv
  obtain ⟨choice, counterpart, hchoice, hcounterpart, halike⟩ := hsame.choice_same candidates hviews
  obtain rfl := Except.ok.inj (hscan.symm.trans hchoice)
  refine ⟨hpermuted, hsame, hviews, by decide, ?_⟩
  cases halike with
  | unmatched hclosest =>
      cases hclosest with
      | @some _ closest hleading =>
          obtain ⟨found, failures⟩ := closest
          obtain ⟨rfl, hfailures⟩ := hleading
          exact ⟨failures, hfailures, hcounterpart⟩

-- Which view error comes first does depend on the order.
example :
    let blind : Item := ⟨"toolchain", "counter", 0⟩
    let named := whenPositive (.leaf (ItemRequirement.name "counter").leaf)
    let valued := whenPositive (.leaf (ItemRequirement.value 4).leaf)
    ((ofList [named, valued]).viewError? blind).map ViewError.assertion = some "NameIs" ∧
      ((ofList [valued, named]).viewError? blind).map ViewError.assertion = some "ValueIs" := by
  decide

end Checklist

end Eventually
