import Eventually.Explanation
import Eventually.Proofs.Assertion.Fixable
import Eventually.Proofs.Requirement.Repair
import Eventually.Proofs.Resource.Document

namespace Eventually

mutual

-- What is not listed has a fixer. Nothing is asked of the lenses: below one that reaches nothing
-- all is listed.
theorem Assertion.fixable_of_explained : ∀ (a : Assertion α) (obj : α),
    (a.repair obj).unexplained = [] → ∀ l ∈ a.leaves, l.Fixable
  | .leaf l, obj, hexplained => by
      refine List.forall_mem_singleton.mpr (Option.isSome_iff_ne_none.mpr fun hfixer => ?_)
      simp only [Assertion.repair, hfixer, reduceCtorEq] at hexplained
  | .all members, obj, hexplained => members.fixable_of_explained obj hexplained
  | .shared inner, obj, hexplained => inner.fixable_of_explained obj hexplained
  | .lift lens inner, obj, hexplained => by
      intro l hl
      obtain ⟨m, hm, rfl⟩ := List.mem_map.mp hl
      cases haccess : lens.access obj with
      | found x =>
          simp only [Assertion.repair, haccess] at hexplained
          have hwrites : lens.access?.isSome := by
            cases hnone : lens.access? with
            | none => simp [Lens.access, hnone] at haccess
            | some reach => rfl
          have hinner : m.Fixable := inner.fixable_of_explained x.part hexplained m hm
          exact (lens.fixer?_isSome_iff m.fixer).mpr ⟨hwrites, hinner⟩
      | missed left =>
          simp only [Assertion.repair, haccess, inner.leafDescriptions_eq,
            List.map_eq_nil_iff] at hexplained
          rw [hexplained] at hm
          cases hm

theorem Checklist.fixable_of_explained : ∀ (list : Checklist α) (obj : α),
    (list.repair obj).unexplained = [] → ∀ l ∈ list.leaves, l.Fixable
  | .nil, _, _ => List.forall_mem_nil _
  | .cons head rest, obj, hexplained => by
      obtain ⟨hhead, hrest⟩ := List.append_eq_nil_iff.mp hexplained
      exact List.forall_mem_append.mpr
        ⟨head.fixable_of_explained obj hhead, rest.fixable_of_explained _ hrest⟩

end

section

variable [Stamps]

theorem Metadata.WrittenAlike.read_eq {m n : Metadata} (halike : m.WrittenAlike n)
    (place : Metadata.Place) : m.read place = n.read place := by
  cases place <;> simp only [read, halike.name, halike.scope, halike.labels, halike.annotations,
    halike.finalizers]

theorem Condition.find?_of_writtenAlike {cs ds : Conditions}
    (halike : List.Forall₂ WrittenAlike cs ds) (type : String) :
    Option.Rel WrittenAlike (find? cs type) (find? ds type) := by
  induction halike with
  | nil => exact .none
  | @cons c d cs ds hhead _ ih =>
      by_cases htype : d.type = type
      · simpa [find?, hhead.type, htype] using Option.Rel.some hhead
      · simpa [find?, hhead.type, htype] using ih

theorem ConditionRequirement.meets_of_writtenAlike {r : ConditionRequirement}
    {found other : Option Condition} (halike : Option.Rel Condition.WrittenAlike found other)
    (hmeets : r.Meets found) : r.Meets other := by
  cases halike with
  | none => exact hmeets
  | @some c d hcondition =>
      cases r with
      | present type => rfl
      | holds type status reason =>
          obtain ⟨_, ⟨⟩, hstatus, hreason⟩ := hmeets
          rw [hcondition.status] at hstatus
          rw [hcondition.reason] at hreason
          exact ⟨d, rfl, hstatus, hreason⟩
      | absent type => cases hmeets

-- If some object passes the list, then each object that fails it has an explanation that says
-- something: a change to be made, or a requirement that no change is known for.
def Checklist.ExplainsFailures [Writable α] (list : Checklist α) : Prop :=
  (∃ obj, list.passes obj) → ∀ obj, ¬list.passes obj →
    ∃ e, list.explain obj = .ok e ∧ (e.changes ≠ [] ∨ e.unexplained ≠ [])

-- Objects that are written as one document.
def SameDocument [Writable α] (first second : α) : Prop :=
  ∃ document other, Writable.write first = .ok document ∧ Writable.write second = .ok other ∧
    document.canonical = other.canonical

-- Objects are written with all that the requirements of their domain look at.
structure Legible [WithMetadata α] [WithConditions α] [Writable α] (own : ρ → Leaf α) : Prop where
  written : ∀ obj : α, ∃ document, Writable.write obj = .ok document
  metadata : ∀ {first second : α}, SameDocument first second →
    (WithMetadata.metadata first).WrittenAlike (WithMetadata.metadata second)
  conditions : ∀ {first second : α}, SameDocument first second →
    List.Forall₂ Condition.WrittenAlike (WithConditions.conditions first)
      (WithConditions.conditions second)
  own_holds : ∀ {first second : α}, SameDocument first second → ∀ r, (own r).Holds first →
    (own r).Holds second

section

variable [WithMetadata α] [WithConditions α] [KindName α] [Writable α] {own : ρ → Leaf α}

theorem Legible.domain_holds (hlegible : Legible own) {first second : α}
    (hsame : SameDocument first second) :
    ∀ l ∈ Leaf.domain own, l.Holds first → l.Holds second := by
  rintro _ (⟨r, rfl⟩ | ⟨_, ⟨r, rfl⟩, rfl⟩ | ⟨_, ⟨r, rfl⟩, rfl⟩) hholds
  · exact hlegible.own_holds hsame r hholds
  · have hmet := (r.leaf_holds_iff _).mp hholds
    refine (r.leaf_holds_iff _).mpr ?_
    rw [← (hlegible.metadata hsame).read_eq, hmet]
  · have hmet := (r.leaf_holds_iff _).mp hholds
    have hfound := Condition.find?_of_writtenAlike (hlegible.conditions hsame) r.type
    exact (r.leaf_holds_iff _).mpr (ConditionRequirement.meets_of_writtenAlike hfound hmet)

-- If nothing is to be changed and nothing is listed, the object is written as a copy that passes,
-- and then passes itself.
theorem Separated.explainsFailures [OrderedDocuments α] (hseparated : Separated own)
    (hown : Leaf.Cooperative (Set.range own)) (hlegible : Legible own) {list : Checklist α}
    (hlist : list.InDomain .total own) : list.ExplainsFailures := by
  intro hmet obj hfails
  have hrepairs : list.Repairs := hseparated.repairs hown hlist
  obtain ⟨document, hwrite⟩ := hlegible.written obj
  obtain ⟨other, hother⟩ := hlegible.written (list.repair obj).object
  refine ⟨⟨Diff.report document other, (list.repair obj).unexplained⟩, ?_, ?_⟩
  · simp only [Checklist.explain, hwrite, hother]
  · by_contra hblank
    obtain ⟨hchanges, hexplained⟩ := by simpa only [not_or, not_not] using hblank
    have hfixable : ∀ l ∈ list.leaves, l.Fixable := list.fixable_of_explained obj hexplained
    have hcopy : list.passes (list.repair obj).object := hrepairs.passes hfixable hmet obj
    have hsame : SameDocument (list.repair obj).object obj := by
      have hdocument := OrderedDocuments.ordered obj document hwrite
      have hother' := OrderedDocuments.ordered _ other hother
      have hequal := (Diff.report_eq_nil_iff hdocument hother').mp hchanges
      exact ⟨other, document, hother, hwrite, hequal.symm⟩
    refine hfails (((hseparated.list_lawful hlist).passes_iff obj).mpr fun l hl => ?_)
    have hdomain : l ∈ Leaf.domain own := Separated.list_fixable_mem hlist l hl (hfixable l hl)
    exact hlegible.domain_holds hsame l hdomain (list.leaf_holds_of_passes _ hcopy l hl)

end

theorem SpaceRequirement.legible : Legible leaf := by
  have hsame : ∀ {first second : Space}, SameDocument first second → first.WrittenAlike second := by
    rintro first second ⟨_, _, ⟨⟩, ⟨⟩, hsame⟩
    exact Space.writtenAlike_of_same hsame
  constructor
  case written => exact fun space => ⟨_, rfl⟩
  case metadata => exact fun hdocument => (hsame hdocument).metadata
  case conditions => exact fun hdocument => (hsame hdocument).conditions
  case own_holds =>
    intro first second hdocument r hholds
    have halike := hsame hdocument
    rw [leaf_holds_iff] at hholds ⊢
    cases r with
    | tier t => exact (congrArg some halike.tier.symm).trans hholds
    | targetCluster c => exact halike.targetCluster.symm.trans hholds

theorem UserSignupRequirement.legible : Legible leaf := by
  have hsame : ∀ {first second : UserSignup}, SameDocument first second →
      first.WrittenAlike second := by
    rintro first second ⟨_, _, ⟨⟩, ⟨⟩, hsame⟩
    exact UserSignup.writtenAlike_of_same hsame
  constructor
  case written => exact fun signup => ⟨_, rfl⟩
  case metadata => exact fun hdocument => (hsame hdocument).metadata
  case conditions => exact fun hdocument => (hsame hdocument).conditions
  case own_holds =>
    intro first second hdocument r hholds
    have halike := hsame hdocument
    rw [leaf_holds_iff] at hholds ⊢
    cases r with
    | username u => exact (congrArg Sum.inl halike.username.symm).trans hholds
    | approved flag => exact (congrArg Sum.inr halike.approved.symm).trans hholds

namespace Checklist

-- The explanation of a failing object is never blank where it could have passed.
theorem domain_explains_failures :
    (∀ list : Checklist Space, list.OnSpaces .total → list.ExplainsFailures) ∧
      ∀ list : Checklist UserSignup, list.OnUserSignups .total → list.ExplainsFailures :=
  ⟨fun _ => SpaceRequirement.separated.explainsFailures SpaceRequirement.writes.cooperative
      SpaceRequirement.legible,
    fun _ => UserSignupRequirement.separated.explainsFailures UserSignupRequirement.writes.cooperative
      UserSignupRequirement.legible⟩

end Checklist

end

namespace Checklist

def tierNamed : Leaf Space where
  description := "the tier is named"
  check space := if space.tier = "" then [.failure "no tier"] else []

-- A stage that can be set, and a tier that only the client can name.
def promoted : Checklist Space := .ofList [staged "new", .leaf tierNamed]

def promotedSpace (tier : String) : Space :=
  { metadata := { name := "dev", labels := LabelMap.empty.insert "stage" "new" }, tier }

theorem domain_explains_failures_of_promoted :
    promoted.OnSpaces .total ∧ promoted.passes (promotedSpace "gold") ∧
      ¬promoted.passes (promotedSpace "") ∧
      ∃ e, promoted.explain (promotedSpace "") = .ok e ∧ (e.changes ≠ [] ∨ e.unexplained ≠ []) := by
  have hlist : promoted.OnSpaces .total := by
    intro a ha
    simp only [promoted, ofList, toList, List.mem_cons, List.not_mem_nil, or_false] at ha
    obtain rfl | rfl := ha
    · exact .atom (.metadata (.atom ⟨_, rfl⟩))
    · exact .closure rfl rfl rfl
  have hmet : promoted.passes (promotedSpace "gold") := by decide
  have hfails : ¬promoted.passes (promotedSpace "") := by decide
  exact ⟨hlist, hmet, hfails, domain_explains_failures.1 promoted hlist ⟨_, hmet⟩ _ hfails⟩

end Checklist

end Eventually
