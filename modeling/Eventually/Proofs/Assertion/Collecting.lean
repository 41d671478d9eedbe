import Eventually.Proofs.Assertion.Nesting

namespace Eventually

-- What two sinks have in common and no call that a test makes to both of them takes away.
structure Sink.Respects [Sink σ] [Sink τ] (common : σ → τ → Prop) : Prop where
  failure : ∀ {sink other}, common sink other → ∀ message,
    common (Sink.failure sink message) (Sink.failure other message)
  log : ∀ {sink other}, common sink other → ∀ message,
    common (Sink.log sink message) (Sink.log other message)
  helper : ∀ {sink other}, common sink other → common (Sink.helper sink) (Sink.helper other)
  viewError : ∀ {sink other}, common sink other → ∀ e,
    common (Sink.viewError sink e) (Sink.viewError other e)

section

variable [Sink σ] [Sink τ] {common : σ → τ → Prop} {sink : σ} {other : τ}

theorem Sink.Respects.accept (hrespects : Sink.Respects common) (hcommon : common sink other)
    (r : Report) : common (Sink.accept sink r) (Sink.accept other r) := by
  cases r with
  | failure message => exact hrespects.failure hcommon message
  | log message => exact hrespects.log hcommon message
  | viewError e => exact hrespects.viewError hcommon e

-- Tests only report, so that two sinks cannot come apart by what a test does to them.
theorem Assertion.test_respects (hrespects : Sink.Respects common) (a : Assertion α) (obj : α)
    (hcommon : common sink other) : common (a.test obj sink) (a.test obj other) := by
  induction a using Assertion.induct generalizing sink other with
  | leaf l => exact List.foldl_rel hcommon fun r _ _ _ hcommon => hrespects.accept hcommon r
  | all members ih =>
      simp only [test, Checklist.testMembers_eq_foldl]
      exact List.foldl_rel (hrespects.helper hcommon) fun a ha _ _ hcommon => ih a ha obj hcommon
  | shared inner ih => exact ih obj hcommon
  | lift lens inner ih =>
      simp only [test]
      cases lens.get? obj with
      | none => exact hrespects.viewError hcommon _
      | some part => exact ih part hcommon

end

-- A sink that takes a view error for a failure like any other.
def Sink.Plain (σ : Type) [Sink σ] : Prop :=
  ∀ (sink : σ) (e : ViewError), Sink.viewError sink e = Sink.failure sink e.message

-- What a plain sink can be told.
inductive Notice where
  | failure (message : String)
  | log (message : String)
  | helper
deriving DecidableEq

namespace Notice

def tell [Sink σ] (sink : σ) : Notice → σ
  | failure message => Sink.failure sink message
  | log message => Sink.log sink message
  | helper => Sink.helper sink

def failure? : Notice → Option String
  | failure message => some message
  | _ => none

def log? : Notice → Option String
  | log message => some message
  | _ => none

-- A plain sink that only writes down what it is told.
instance : Sink (List Notice) where
  failure notices message := notices ++ [failure message]
  log notices message := notices ++ [log message]
  helper notices := notices ++ [helper]
  failed notices := notices.any fun notice => notice.failure?.isSome

-- What is written down can be told to any other plain sink.
theorem tell_respects [Sink σ] (hplain : Sink.Plain σ) (start : σ) :
    Sink.Respects fun (notices : List Notice) (sink : σ) => sink = notices.foldl tell start where
  failure := by
    rintro notices _ rfl message
    simp [Sink.failure, tell]
  log := by
    rintro notices _ rfl message
    simp [Sink.log, tell]
  helper := by
    rintro notices _ rfl
    simp [Sink.helper, tell]
  viewError := by
    rintro notices _ rfl e
    rw [hplain]
    simp [Sink.viewError, tell]

-- What is written down has the messages that findings collect.
theorem findings_respects :
    Sink.Respects fun (notices : List Notice) (found : Findings) =>
      notices.filterMap failure? = found.failures ∧ notices.filterMap log? = found.logs where
  failure := by
    rintro notices found ⟨hfailures, hlogs⟩ message
    simp [Sink.failure, failure?, log?, hfailures, hlogs]
  log := by
    rintro notices found ⟨hfailures, hlogs⟩ message
    simp [Sink.log, failure?, log?, hfailures, hlogs]
  helper := by
    rintro notices found ⟨hfailures, hlogs⟩
    simp [Sink.helper, failure?, log?, hfailures, hlogs]
  viewError := by
    rintro notices found ⟨hfailures, hlogs⟩ e
    simp [Sink.viewError, failure?, log?, hfailures, hlogs]

end Notice

theorem findSome?_flatMap {items : List ι} (f : ι → List β) (g : β → Option γ) :
    (items.flatMap f).findSome? g = items.findSome? fun item => (f item).findSome? g := by
  induction items with
  | nil => rfl
  | cons item rest ih =>
      rw [List.flatMap_cons, List.findSome?_append, List.findSome?_cons, ih]
      cases (f item).findSome? g <;> rfl

namespace Checklist

theorem SeesThrough.eq_flatMap {read : Assertion α → List γ} {readAll : Checklist α → List γ}
    (hread : SeesThrough read readAll (· ++ ·)) (list : Checklist α) :
    readAll list = list.flatten.flatMap read := by
  have hnil : readAll nil = [] := by simpa using hread.nil_join []
  have hofList (members : List (Assertion α)) :
      readAll (ofList members) = members.flatMap read := by
    induction members with
    | nil => exact hnil
    | cons head rest ih => rw [ofList, hread.cons_eq, ih, List.flatMap_cons]
  rw [← hofList, list.inlined_flatten.read_eq hread]

-- A test of a list goes through all of its flattened members, in their order, and keeps what each
-- of them has to say on its own. Any plain sink hears the messages that findings collect.
structure CollectsAll (list : Checklist α) (obj : α) : Prop where
  test_eq : ∀ found : Findings, list.test obj found =
    ⟨found.failures ++ list.flatten.flatMap fun a => (a.findings obj).failures,
      found.logs ++ list.flatten.flatMap fun a => (a.findings obj).logs,
      found.viewError.or (list.flatten.findSome? fun a => (a.findings obj).viewError)⟩
  passes_iff : list.passes obj ↔ ∀ a ∈ list.flatten, (a.findings obj).failures = []
  not_passes : ∀ a ∈ list.flatten, (a.findings obj).viewError.isSome → ¬list.passes obj
  heard : ∃ notices : List Notice,
    (∀ {σ : Type} [Sink σ], Sink.Plain σ → ∀ sink : σ,
      list.test obj sink = notices.foldl Notice.tell sink) ∧
    notices.filterMap Notice.failure? = (list.findings obj).failures ∧
    notices.filterMap Notice.log? = (list.findings obj).logs

theorem test_eq_flatMap (list : Checklist α) (obj : α) (found : Findings) :
    list.test obj found =
      ⟨found.failures ++ list.flatten.flatMap fun a => (a.findings obj).failures,
        found.logs ++ list.flatten.flatMap fun a => (a.findings obj).logs,
        found.viewError.or (list.flatten.findSome? fun a => (a.findings obj).viewError)⟩ := by
  have hreports : list.reports obj = list.flatten.flatMap fun a => a.reports obj :=
    (reports_seesThrough obj).eq_flatMap list
  rw [test, Assertion.test_findings, Assertion.reports, Findings.foldl_accept, hreports]
  simp only [List.filterMap_flatMap, findSome?_flatMap, Assertion.findings_eq]

theorem findings_eq_flatMap (list : Checklist α) (obj : α) :
    list.findings obj =
      ⟨list.flatten.flatMap fun a => (a.findings obj).failures,
        list.flatten.flatMap fun a => (a.findings obj).logs,
        list.flatten.findSome? fun a => (a.findings obj).viewError⟩ := by
  rw [findings, test_eq_flatMap]
  simp only [List.nil_append, Option.none_or]

theorem passes_iff_flatten (list : Checklist α) (obj : α) :
    list.passes obj ↔ ∀ a ∈ list.flatten, (a.findings obj).failures = [] := by
  rw [passes_eq_isEmpty, failures, findings_eq_flatMap, List.isEmpty_iff, List.flatMap_eq_nil_iff]

theorem exists_notices (list : Checklist α) (obj : α) :
    ∃ notices : List Notice,
      (∀ {σ : Type} [Sink σ], Sink.Plain σ → ∀ sink : σ,
        list.test obj sink = notices.foldl Notice.tell sink) ∧
      notices.filterMap Notice.failure? = (list.findings obj).failures ∧
      notices.filterMap Notice.log? = (list.findings obj).logs := by
  have hempty : ([] : List Notice).filterMap Notice.failure? = ({} : Findings).failures ∧
      ([] : List Notice).filterMap Notice.log? = ({} : Findings).logs := ⟨rfl, rfl⟩
  refine ⟨list.test obj [], fun hplain sink => ?_, ?_⟩
  · exact (Assertion.all list).test_respects (Notice.tell_respects hplain sink) obj rfl
  · exact (Assertion.all list).test_respects Notice.findings_respects obj hempty

theorem collectsAll (list : Checklist α) (obj : α) : list.CollectsAll obj where
  test_eq := list.test_eq_flatMap obj
  passes_iff := list.passes_iff_flatten obj
  not_passes := by
    intro a ha herror hpasses
    have hnone := (list.passes_iff_flatten obj).mp hpasses a ha
    obtain ⟨e, he⟩ := Option.isSome_iff_exists.mp herror
    simp only [Assertion.findings_eq] at hnone he
    obtain ⟨r, hr, hview⟩ := List.exists_of_findSome?_eq_some he
    have hfailure := List.filterMap_eq_nil_iff.mp hnone r hr
    cases r with
    | viewError => cases hfailure
    | _ => cases hview
  heard := list.exists_notices obj

end Checklist

-- A lift hands the part on to what it lifts. Without a part its sink is told so, and nothing else
-- whatever is lifted.
structure Lens.Guards (lens : Lens α β) (inner : Assertion β) (obj : α) : Prop where
  reached : ∀ part, lens.get? obj = some part → ∀ {σ : Type} [Sink σ] (sink : σ),
    (Assertion.lift lens inner).test obj sink = inner.test part sink
  missed : lens.get? obj = none →
    let e : ViewError := ⟨inner.describe, lens.whole, lens.part⟩
    (∀ {σ : Type} [Sink σ] (sink : σ),
      (Assertion.lift lens inner).test obj sink = Sink.viewError sink e) ∧
    (Assertion.lift lens inner).findings obj = ⟨[e.message], [], some e⟩

theorem Lens.guards (lens : Lens α β) (inner : Assertion β) (obj : α) :
    lens.Guards inner obj where
  reached part hpart := by
    intro σ _ sink
    simp only [Assertion.test, hpart]
  missed hnone := by
    constructor
    · intro σ _ sink
      simp only [Assertion.test, hnone]
    · simp only [Assertion.findings, Assertion.test, hnone]
      rfl

namespace Checklist

-- Whatever a list is made of, a test of it is the tests of its flattened members put together, and
-- no failure of one of them keeps another from being tested.
theorem tests_collect_all :
    (∀ {α : Type} (list : Checklist α) (obj : α), list.CollectsAll obj) ∧
      ∀ {α β : Type} (lens : Lens α β) (inner : Assertion β) (obj : α), lens.Guards inner obj :=
  ⟨collectsAll, Lens.guards⟩

-- A lift that reaches nothing, between two requirements that fail.
def blind : Assertion Item :=
  .lift (Lens.guarded "Item" (fun _ => false) none) (.leaf (ItemRequirement.name "counter").leaf)

def scattered : Checklist Item :=
  .ofList [.leaf (ItemRequirement.value 3).leaf,
    .all (.ofList [blind, .leaf (ItemRequirement.value 4).leaf])]

theorem tests_collect_all_of_scattered :
    let item : Item := ⟨"toolchain", "counter", 1⟩
    let error : ViewError := ⟨"NameIs", "Item", "Item"⟩
    blind ∈ scattered.flatten ∧ (blind.findings item).viewError.isSome ∧ Sink.Plain Transcript ∧
      blind.findings item = ⟨[error.message], [], some error⟩ ∧ ¬scattered.passes item ∧
      ∃ notices : List Notice,
        scattered.test item ({} : Transcript) = notices.foldl Notice.tell {} ∧
        notices.filterMap Notice.failure? =
          ["expected value 3, got 1", error.message, "expected value 4, got 1"] := by
  intro item error
  have hblind : blind.findings item = ⟨[error.message], [], some error⟩ :=
    ((tests_collect_all.2 (Lens.guarded "Item" (fun _ => false) none)
      (.leaf (ItemRequirement.name "counter").leaf) item).missed rfl).2
  have hmem : blind ∈ scattered.flatten := by
    simp only [scattered, blind, ofList, flatten, Assertion.flatten]
    simp
  have hview : (blind.findings item).viewError.isSome := by rw [hblind]; rfl
  have hplain : Sink.Plain Transcript := fun _ _ => rfl
  have hcollects := tests_collect_all.1 scattered item
  obtain ⟨notices, htest, hfailures, _⟩ := hcollects.heard
  refine ⟨hmem, hview, hplain, hblind, hcollects.not_passes blind hmem hview, notices,
    htest hplain {}, hfailures.trans ?_⟩
  decide

end Checklist

end Eventually
