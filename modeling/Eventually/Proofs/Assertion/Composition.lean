import Eventually.Proofs.Assertion.Collecting
import Eventually.Proofs.Assertion.Lifting
import Eventually.Proofs.Assertion.Steps
import Eventually.Requirement.Metadata
import Eventually.Requirement.Part
import Eventually.Resource.Standard

namespace Eventually

-- Reaching on from a part. What that does to the part is put into the whole, whether or not it gets
-- anywhere.
def Access.through (access : Access α β) (next : β → Access β γ) : Access α γ :=
  match access with
  | missed left => missed left
  | found x =>
      match next x.part with
      | missed left => missed (x.put left)
      | found y => found (x.within y)

theorem Access.change_through (access : Access α β) (next : β → Access β γ) (f : γ → γ) :
    (access.through next).change f = access.change fun part => (next part).change f := by
  cases access with
  | missed left => rfl
  | found x =>
      simp only [through, change]
      cases next x.part <;> rfl

namespace Lens

-- The part of a part. It is replaced in the part, and that one in the whole.
def comp (outer : Lens α β) (inner : Lens β γ) : Lens α γ where
  whole := outer.whole
  part := inner.part
  get? a := (outer.get? a).bind inner.get?
  access? := outer.access?.bind fun reach => inner.access?.map fun next a => (reach a).through next

-- The whole taken as its own part.
def identity (kind : String) : Lens α α := guarded kind (fun _ => true) (some fun _ => true)

section

variable (outer : Lens α β) (inner : Lens β γ)

theorem get?_comp (obj : α) : (outer.comp inner).get? obj = (outer.get? obj).bind inner.get? := rfl

theorem access?_comp :
    (outer.comp inner).access? = outer.access?.bind fun reach =>
      inner.access?.map fun next obj => (reach obj).through next := rfl

theorem isSome_access?_comp :
    (outer.comp inner).access?.isSome ↔ outer.access?.isSome ∧ inner.access?.isSome := by
  rw [access?_comp]
  cases outer.access? <;> cases inner.access? <;> simp

theorem fixer?_comp (fixer : Option (γ → γ)) :
    (outer.comp inner).fixer? fixer = outer.fixer? (inner.fixer? fixer) := by
  simp only [fixer?, access?_comp]
  cases outer.access? with
  | none => rfl
  | some reach =>
      cases inner.access? with
      | none => rfl
      | some next =>
          cases fixer with
          | none => rfl
          | some fix => exact congrArg some (funext fun obj => Access.change_through ..)

-- The outer lens reaches for its part in vain if the inner one only reads, and their composition
-- does not reach for it at all.
theorem repair_lift_of_reads (hreads : inner.access? = none) (a : Assertion γ) (obj : α) :
    (Assertion.lift outer (.lift inner a)).repair obj =
      ⟨(outer.access obj).whole, a.leafDescriptions⟩ := by
  have hinner (part : β) : inner.access part = .missed part := by simp only [access, hreads]
  simp only [Assertion.repair, hinner, Assertion.leafDescriptions]
  cases outer.access obj <;> rfl

-- The repair of a part that is not reached puts down its leaves, whichever lens fails to reach it.
theorem repair_comp (hlenses : outer.Projects ∨ inner.access?.isSome) (a : Assertion γ) (obj : α) :
    (Assertion.lift (outer.comp inner) a).repair obj =
      (Assertion.lift outer (.lift inner a)).repair obj := by
  cases hinner : inner.access? with
  | none =>
      have hprojects : outer.Projects := by simpa [hinner] using hlenses
      have hcomp : (outer.comp inner).access obj = .missed obj := by
        simp [access, access?_comp, hinner]
      rw [outer.repair_lift_of_reads inner hinner, hprojects obj]
      simp only [Assertion.repair, hcomp]
  | some next =>
      cases houter : outer.access? with
      | none => simp [Assertion.repair, access, access?_comp, houter, Assertion.leafDescriptions]
      | some reach =>
          simp only [Assertion.repair, access, access?_comp, houter, hinner, Option.bind_some,
            Option.map_some, Assertion.leafDescriptions]
          cases reach obj with
          | missed left => rfl
          | found x =>
              simp only [Access.through]
              cases next x.part <;> rfl

-- Which leaves are put down does not depend on what reaching for a part changes.
theorem unexplained_comp (a : Assertion γ) (obj : α) :
    ((Assertion.lift outer (.lift inner a)).repair obj).unexplained =
      ((Assertion.lift (outer.comp inner) a).repair obj).unexplained := by
  cases hinner : inner.access? with
  | none =>
      have hcomp : (outer.comp inner).access obj = .missed obj := by
        simp [access, access?_comp, hinner]
      rw [outer.repair_lift_of_reads inner hinner]
      simp only [Assertion.repair, hcomp]
  | some next => rw [outer.repair_comp inner (.inr (by rw [hinner, Option.isSome_some]))]

end

end Lens

namespace Assertion

-- Assertions, perhaps of different types, that say the same of themselves.
structure Alike (first : Assertion α) (second : Assertion β) : Prop where
  describe_eq : first.describe = second.describe
  leafDescriptions_eq : first.leafDescriptions = second.leafDescriptions
  name?_eq : first.name? = second.name?
  scope?_eq : first.scope? = second.scope?
  names_eq : first.names = second.names
  scopes_eq : first.scopes = second.scopes

-- Neither the fixers, if there are any, nor the repairs leave different objects.
structure FixAlike (first second : Assertion α) (obj : α) : Prop where
  fixed_eq : first.fixer?.map (fun fix => fix obj) = second.fixer?.map (fun fix => fix obj)
  repair_eq : first.repair obj = second.repair obj

-- No sink hears of any difference between two tests of an object.
def TestAlike (first second : Assertion α) (obj : α) : Prop :=
  ∀ (σ : Type) [Sink σ] (sink : σ), first.test obj sink = second.test obj sink

-- A test says that the object cannot be viewed as it has to be, and nothing else.
def Misses (a : Assertion α) (obj : α) : Prop :=
  ∃ e : ViewError, (∀ {σ : Type} [Sink σ] (sink : σ), a.test obj sink = Sink.viewError sink e) ∧
    a.findings obj = ⟨[e.message], [], some e⟩

def passes (a : Assertion α) (obj : α) : Bool := (Checklist.ofList [a]).passes obj

theorem TestAlike.passes_eq {first second : Assertion α} {obj : α}
    (halike : first.TestAlike second obj) : first.passes obj = second.passes obj := by
  have hfindings : (Checklist.ofList [first]).findings obj =
      (Checklist.ofList [second]).findings obj := halike Findings (Sink.helper {})
  rw [passes, passes, Checklist.passes, Checklist.passes, hfindings]

theorem Misses.not_passes {a : Assertion α} {obj : α} (hmisses : a.Misses obj) : ¬a.passes obj := by
  obtain ⟨e, htest, _⟩ := hmisses
  have hfindings : (Checklist.ofList [a]).findings obj = Sink.viewError ({} : Findings) e :=
    htest (Sink.helper ({} : Findings))
  rw [passes, Checklist.passes, hfindings]
  simp [Sink.failed, Sink.viewError]

theorem Alike.trans {first : Assertion α} {second : Assertion β} {third : Assertion γ}
    (hleft : first.Alike second) (hright : second.Alike third) : first.Alike third where
  describe_eq := hleft.describe_eq.trans hright.describe_eq
  leafDescriptions_eq := hleft.leafDescriptions_eq.trans hright.leafDescriptions_eq
  name?_eq := hleft.name?_eq.trans hright.name?_eq
  scope?_eq := hleft.scope?_eq.trans hright.scope?_eq
  names_eq := hleft.names_eq.trans hright.names_eq
  scopes_eq := hleft.scopes_eq.trans hright.scopes_eq

theorem Alike.symm {first : Assertion α} {second : Assertion β} (halike : first.Alike second) :
    second.Alike first where
  describe_eq := halike.describe_eq.symm
  leafDescriptions_eq := halike.leafDescriptions_eq.symm
  name?_eq := halike.name?_eq.symm
  scope?_eq := halike.scope?_eq.symm
  names_eq := halike.names_eq.symm
  scopes_eq := halike.scopes_eq.symm

theorem lift_alike (lens : Lens α β) (a : Assertion β) : (lift lens a).Alike a where
  describe_eq := rfl
  leafDescriptions_eq := rfl
  name?_eq := name?_lift lens a
  scope?_eq := scope?_lift lens a
  names_eq := names_lift lens a
  scopes_eq := scopes_lift lens a

theorem lift_lift_alike (outer : Lens α β) (inner : Lens β γ) (a : Assertion γ) :
    (lift outer (lift inner a)).Alike a :=
  (lift_alike outer _).trans (lift_alike inner a)

theorem lift_misses {lens : Lens α β} {obj : α} (hnone : lens.get? obj = none) (a : Assertion β) :
    (lift lens a).Misses obj :=
  ⟨⟨a.describe, lens.whole, lens.part⟩, (lens.guards a obj).missed hnone⟩

theorem test_lift {lens : Lens α β} {obj : α} {part : β} (hpart : lens.get? obj = some part)
    (a : Assertion β) (σ : Type) [Sink σ] (sink : σ) :
    (lift lens a).test obj sink = a.test part sink := (lens.guards a obj).reached part hpart sink

theorem Misses.lift {lens : Lens α β} {obj : α} {part : β} {a : Assertion β}
    (hmisses : a.Misses part) (hpart : lens.get? obj = some part) :
    (Assertion.lift lens a).Misses obj := by
  obtain ⟨e, htest, hfindings⟩ := hmisses
  refine ⟨e, fun sink => ?_, (test_lift hpart a Findings {}).trans hfindings⟩
  rw [test_lift hpart, htest]

-- Assertions of which either can stand for the other, as far as objects of one kind go.
structure SameOn (P : α → Prop) (first second : Assertion α) : Prop where
  alike : first.Alike second
  offersFixer_iff : first.fixer?.isSome ↔ second.fixer?.isSome
  fix_alike : ∀ obj, P obj → first.FixAlike second obj
  test_alike : ∀ obj, P obj → first.TestAlike second obj
  passes_eq : ∀ obj, P obj → first.passes obj = second.passes obj

theorem lift_identity_same (kind : String) (a : Assertion α) :
    (lift (.identity kind) a).SameOn (fun _ => True) a := by
  have hfixer : (lift (.identity kind) a).fixer? = a.fixer? := by
    rw [fixer?]
    cases a.fixer? <;> rfl
  have htest (obj : α) : (lift (.identity kind) a).TestAlike a obj := test_lift rfl a
  constructor
  case alike => exact lift_alike _ a
  case offersFixer_iff => rw [hfixer]
  case fix_alike => exact fun obj _ => ⟨by rw [hfixer], rfl⟩
  case test_alike => exact fun obj _ => htest obj
  case passes_eq => exact fun obj _ => (htest obj).passes_eq

-- On a space it makes no difference whether it is known for one.
theorem onSpace_onMetadata_same [Stamps] (a : Assertion Metadata) :
    (onSpace (onMetadata a)).SameOn (fun resource => ∃ space, resource = .space space)
      (onMetadata a) := by
  have htest (space : Space) : (onSpace (onMetadata a)).TestAlike (onMetadata a) (.space space) :=
    fun _ _ _ => rfl
  constructor
  case alike => exact (lift_lift_alike _ _ a).trans (lift_alike _ a).symm
  case offersFixer_iff =>
    simp only [onSpace, onMetadata, fixer?]
    cases a.fixer? <;> simp [Lens.fixer?, Lens.asSpace, Lens.metadata]
  case fix_alike =>
    rintro _ ⟨space, rfl⟩
    refine ⟨?_, rfl⟩
    simp only [onSpace, onMetadata, fixer?]
    cases a.fixer? <;> rfl
  case test_alike =>
    rintro _ ⟨space, rfl⟩
    exact htest space
  case passes_eq =>
    rintro _ ⟨space, rfl⟩
    exact (htest space).passes_eq

end Assertion

-- Lifting an assertion step by step is lifting it once. Only which of the parts is missing is told
-- apart by the view error, and where only the outer part can be replaced, only a repair step by step
-- reaches for it, which makes no difference if reaching for it is no more than that.
structure Lens.Composes (outer : Lens α β) (inner : Lens β γ) (a : Assertion γ) : Prop where
  alike : (Assertion.lift outer (.lift inner a)).Alike (.lift (outer.comp inner) a)
  replaceable_iff : (outer.comp inner).access?.isSome ↔ outer.access?.isSome ∧ inner.access?.isSome
  fixer?_eq : (Assertion.lift outer (.lift inner a)).fixer? =
    (Assertion.lift (outer.comp inner) a).fixer?
  unexplained_eq : ∀ obj, ((Assertion.lift outer (.lift inner a)).repair obj).unexplained =
    ((Assertion.lift (outer.comp inner) a).repair obj).unexplained
  repair_eq : outer.Projects ∨ inner.access?.isSome → ∀ obj,
    (Assertion.lift outer (.lift inner a)).repair obj =
      (Assertion.lift (outer.comp inner) a).repair obj
  reached : ∀ obj mid, outer.get? obj = some mid → (inner.get? mid).isSome →
    (Assertion.lift outer (.lift inner a)).TestAlike (.lift (outer.comp inner) a) obj
  missed : ∀ obj, (∀ mid, outer.get? obj = some mid → inner.get? mid = none) →
    (Assertion.lift outer (.lift inner a)).Misses obj ∧
      (Assertion.lift (outer.comp inner) a).Misses obj
  passes_eq : ∀ obj, (Assertion.lift outer (.lift inner a)).passes obj =
    (Assertion.lift (outer.comp inner) a).passes obj

theorem Lens.composes (outer : Lens α β) (inner : Lens β γ) (a : Assertion γ) :
    outer.Composes inner a := by
  have hreached (obj : α) (mid : β) (hmid : outer.get? obj = some mid)
      (hpart : (inner.get? mid).isSome) :
      (Assertion.lift outer (.lift inner a)).TestAlike (.lift (outer.comp inner) a) obj := by
    obtain ⟨part, hpart⟩ := Option.isSome_iff_exists.mp hpart
    have honce : (outer.comp inner).get? obj = some part := by
      rw [get?_comp, hmid, Option.bind_some, hpart]
    intro σ _ sink
    rw [Assertion.test_lift hmid, Assertion.test_lift hpart, Assertion.test_lift honce]
  have hmissed (obj : α) (hnone : ∀ mid, outer.get? obj = some mid → inner.get? mid = none) :
      (Assertion.lift outer (.lift inner a)).Misses obj ∧
        (Assertion.lift (outer.comp inner) a).Misses obj := by
    refine ⟨?_, Assertion.lift_misses (Option.bind_eq_none_iff.mpr hnone) a⟩
    cases hmid : outer.get? obj with
    | none => exact Assertion.lift_misses hmid _
    | some mid => exact (Assertion.lift_misses (hnone mid hmid) a).lift hmid
  constructor
  case alike => exact (Assertion.lift_lift_alike outer inner a).trans (Assertion.lift_alike _ a).symm
  case replaceable_iff => exact outer.isSome_access?_comp inner
  case fixer?_eq => exact (outer.fixer?_comp inner a.fixer?).symm
  case unexplained_eq => exact outer.unexplained_comp inner a
  case repair_eq => exact fun hlenses obj => (outer.repair_comp inner hlenses a obj).symm
  case reached => exact hreached
  case missed => exact hmissed
  case passes_eq =>
    intro obj
    by_cases hreach : ∃ mid, outer.get? obj = some mid ∧ (inner.get? mid).isSome
    · obtain ⟨mid, hmid, hpart⟩ := hreach
      exact (hreached obj mid hmid hpart).passes_eq
    · obtain ⟨htwice, honce⟩ := hmissed obj fun mid hmid =>
        Option.not_isSome_iff_eq_none.mp fun hpart => hreach ⟨mid, hmid, hpart⟩
      rw [Bool.eq_iff_iff]
      exact iff_of_false htwice.not_passes honce.not_passes

-- An assertion can be lifted in as many steps as one likes, none of them included, and metadata of
-- a space are those of the resource that it is.
theorem lifting_functorial [Stamps] :
    (∀ {α β γ : Type} (outer : Lens α β) (inner : Lens β γ) (a : Assertion γ),
        outer.Composes inner a) ∧
      (∀ {α : Type} (kind : String) (a : Assertion α),
        (Assertion.lift (.identity kind) a).SameOn (fun _ => True) a) ∧
      ∀ a : Assertion Metadata,
        (Assertion.onSpace (.onMetadata a)).SameOn (fun resource => ∃ space, resource = .space space)
          (.onMetadata a) :=
  ⟨Lens.composes, Assertion.lift_identity_same, Assertion.onSpace_onMetadata_same⟩

-- Spaces are resources, and whether a resource is one is found out without changing it.
theorem lifting_functorial_of_resources :
    Lens.asSpace.Projects ∧ ∀ (a : Assertion Metadata) (resource : Resource),
      (Assertion.onSpace (.onMetadata a)).repair resource =
        (Assertion.lift (Lens.asSpace.comp (Lens.metadata Space)) a).repair resource := by
  have hprojects : Lens.asSpace.Projects := by
    intro resource
    cases resource <;> rfl
  have hcomposes := lifting_functorial.1 Lens.asSpace (Lens.metadata Space)
  exact ⟨hprojects, fun a => (hcomposes a).repair_eq (.inl hprojects)⟩

-- Where a part is missing, two lifts say which one, and their composition only what was wanted.
example :
    let signup : Resource := .userSignup { metadata := { name := "john" }, username := "john" }
    let named : Assertion Metadata := .leaf (MetadataRequirement.name "john").leaf
    ((Assertion.onSpace (.onMetadata named)).findings signup).viewError =
        some ⟨"name is john", "dyn Resource", "Space"⟩ ∧
      ((Assertion.lift (Lens.asSpace.comp (Lens.metadata Space)) named).findings signup).viewError =
        some ⟨"name is john", "dyn Resource", "ObjectMeta"⟩ := by
  decide

end Eventually
