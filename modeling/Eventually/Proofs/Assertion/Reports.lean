import Eventually.Assertion.Test

namespace Eventually

mutual

-- One case for each kind of assertion, a checklist being known by its members.
@[elab_as_elim]
theorem Assertion.induct {motive : {α : Type} → Assertion α → Prop}
    (leaf : ∀ {α} (l : Leaf α), motive (.leaf l))
    (all : ∀ {α} (members : Checklist α), (∀ a ∈ members.toList, motive a) → motive (.all members))
    (shared : ∀ {α} (inner : Assertion α), motive inner → motive (.shared inner))
    (lift : ∀ {α β} (lens : Lens α β) (inner : Assertion β), motive inner →
      motive (.lift lens inner)) :
    ∀ {α} (a : Assertion α), motive a
  | _, .leaf l => leaf l
  | _, .all members => all members (Checklist.induct leaf all shared lift members)
  | _, .shared inner => shared inner (Assertion.induct leaf all shared lift inner)
  | _, .lift lens inner => lift lens inner (Assertion.induct leaf all shared lift inner)

theorem Checklist.induct {motive : {α : Type} → Assertion α → Prop}
    (leaf : ∀ {α} (l : Leaf α), motive (.leaf l))
    (all : ∀ {α} (members : Checklist α), (∀ a ∈ members.toList, motive a) → motive (.all members))
    (shared : ∀ {α} (inner : Assertion α), motive inner → motive (.shared inner))
    (lift : ∀ {α β} (lens : Lens α β) (inner : Assertion β), motive inner →
      motive (.lift lens inner)) :
    ∀ {α} (list : Checklist α), ∀ a ∈ list.toList, motive a
  | _, .nil => List.forall_mem_nil _
  | _, .cons head rest =>
      List.forall_mem_cons.mpr
        ⟨Assertion.induct leaf all shared lift head, Checklist.induct leaf all shared lift rest⟩

end

namespace Report

-- What counts as a failure: a view error does, by its message, and a log does not.
def failure? : Report → Option String
  | failure message => some message
  | log _ => none
  | viewError e => some e.message

def log? : Report → Option String
  | log message => some message
  | _ => none

def viewError? : Report → Option ViewError
  | viewError e => some e
  | _ => none

end Report

mutual

-- What a test reports, in its order and apart from any sink.
def Assertion.reports : Assertion α → α → List Report
  | .leaf l, obj => l.check obj
  | .all members, obj => members.reports obj
  | .shared inner, obj => inner.reports obj
  | .lift lens inner, obj =>
      match lens.get? obj with
      | some part => inner.reports part
      | none => [.viewError ⟨inner.describe, lens.whole, lens.part⟩]

def Checklist.reports : Checklist α → α → List Report
  | .nil, _ => []
  | .cons head rest, obj => head.reports obj ++ rest.reports obj

end

namespace Checklist

theorem reports_eq_flatMap (obj : α) : ∀ list : Checklist α,
    list.reports obj = list.toList.flatMap fun a => a.reports obj
  | nil => rfl
  | cons head rest => by
      simp only [reports, toList, List.flatMap_cons, reports_eq_flatMap obj rest]

theorem testMembers_eq_foldl [Sink σ] (obj : α) : ∀ (list : Checklist α) (sink : σ),
    list.testMembers obj sink = list.toList.foldl (fun sink a => a.test obj sink) sink
  | nil, _ => rfl
  | cons head rest, sink => by
      simp only [testMembers, toList, List.foldl_cons, testMembers_eq_foldl obj rest]

end Checklist

-- Findings have no use for helpers, so a test hands them the reports and nothing else.
theorem Assertion.test_findings (a : Assertion α) (obj : α) (found : Findings) :
    a.test obj found = (a.reports obj).foldl Sink.accept found := by
  induction a using Assertion.induct generalizing found with
  | leaf l => rfl
  | all members ih =>
      simp only [test, reports, Checklist.testMembers_eq_foldl, Checklist.reports_eq_flatMap,
        List.foldl_flatMap]
      change List.foldl _ found _ = _
      generalize members.toList = as at ih
      induction as generalizing found with
      | nil => rfl
      | cons head rest ihrest =>
          obtain ⟨hhead, hrest⟩ := List.forall_mem_cons.mp ih
          simp only [List.foldl_cons, hhead obj found]
          exact ihrest _ hrest
  | shared inner ih => exact ih obj found
  | lift lens inner ih =>
      simp only [test, reports]
      cases lens.get? obj with
      | none => rfl
      | some part => exact ih part found

theorem Findings.foldl_accept (reports : List Report) (found : Findings) :
    reports.foldl Sink.accept found =
      ⟨found.failures ++ reports.filterMap Report.failure?,
        found.logs ++ reports.filterMap Report.log?,
        found.viewError.or (reports.findSome? Report.viewError?)⟩ := by
  induction reports generalizing found with
  | nil => simp
  | cons head rest ih =>
      rw [List.foldl_cons, ih]
      cases head <;>
        simp [Sink.accept, Sink.failure, Sink.log, Sink.viewError, List.filterMap_cons,
          List.findSome?_cons, Report.failure?, Report.log?, Report.viewError?]

-- What a test of a single assertion finds.
def Assertion.findings (a : Assertion α) (obj : α) : Findings := a.test obj {}

theorem Assertion.findings_eq (a : Assertion α) (obj : α) :
    a.findings obj =
      ⟨(a.reports obj).filterMap Report.failure?, (a.reports obj).filterMap Report.log?,
        (a.reports obj).findSome? Report.viewError?⟩ := by
  have hfold := Findings.foldl_accept (a.reports obj) {}
  simp only [List.nil_append, Option.none_or] at hfold
  rw [findings, a.test_findings, hfold]

namespace Checklist

theorem findings_eq (list : Checklist α) (obj : α) :
    list.findings obj =
      ⟨(list.reports obj).filterMap Report.failure?, (list.reports obj).filterMap Report.log?,
        (list.reports obj).findSome? Report.viewError?⟩ :=
  (Assertion.all list).findings_eq obj

theorem passes_iff (list : Checklist α) (obj : α) :
    list.passes obj ↔ ∀ r ∈ list.reports obj, r.failure? = none := by
  simp [passes, Sink.failed, findings_eq]

-- The first view error of a test, if it has one.
def viewError? (list : Checklist α) (obj : α) : Option ViewError :=
  (list.reports obj).findSome? Report.viewError?

theorem findings_viewError (list : Checklist α) (obj : α) :
    (list.findings obj).viewError = list.viewError? obj :=
  congrArg Findings.viewError (list.findings_eq obj)

theorem viewError?_eq_none_of_passes (list : Checklist α) (obj : α) (hpasses : list.passes obj) :
    list.viewError? obj = none := by
  refine List.findSome?_eq_none_iff.mpr fun r hr => ?_
  have hnone := (list.passes_iff obj).mp hpasses r hr
  cases r with
  | viewError => cases hnone
  | _ => rfl

-- Judging an object has three outcomes, apart by its first view error and by whether it passes.
theorem evaluate_eq (list : Checklist α) (obj : α) :
    list.evaluate obj =
      match list.viewError? obj with
      | some e => .error e
      | none => .ok (list.failures obj) := by
  have hview := list.findings_viewError obj
  cases hfound : list.viewError? obj with
  | none => simp only [evaluate, hview, hfound, failures]
  | some e => simp only [evaluate, hview, hfound]

theorem passes_eq_isEmpty (list : Checklist α) (obj : α) :
    list.passes obj = (list.failures obj).isEmpty := by
  simp [passes, failures, Sink.failed]

end Checklist

end Eventually
