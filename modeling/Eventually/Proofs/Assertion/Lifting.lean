import Eventually.Assertion.Identity
import Eventually.Proofs.Assertion.Leaves
import Eventually.Requirement.Metadata
import Eventually.Requirement.Part
import Eventually.Resource.Standard

namespace Eventually

-- Each kind of exposure belongs to one way of having markers or not.
theorem Exposure.ofMarkers_eq_iff (names scopes : List String) :
    (ofMarkers names scopes = .plain ↔ names = [] ∧ scopes = []) ∧
      (ofMarkers names scopes = .named ↔ names ≠ [] ∧ scopes = []) ∧
      (ofMarkers names scopes = .namespaced ↔ names = [] ∧ scopes ≠ []) ∧
      (ofMarkers names scopes = .identified ↔ names ≠ [] ∧ scopes ≠ []) := by
  cases names <;> cases scopes <;> simp [ofMarkers]

namespace Assertion

theorem names_lift (lens : Lens α β) (inner : Assertion β) :
    (lift lens inner).names = inner.names := by
  rw [names, markers, Markers.exposed_eq, names]

theorem scopes_lift (lens : Lens α β) (inner : Assertion β) :
    (lift lens inner).scopes = inner.scopes := by
  rw [scopes, markers, Markers.exposed_eq, scopes]

-- Which markers a lift shows depends on which it has.
theorem exposure_eq (inner : Assertion β) :
    inner.exposure = .ofMarkers inner.names inner.scopes := rfl

theorem showsNames_iff (inner : Assertion β) :
    inner.exposure.showsNames ↔ inner.names ≠ [] := by
  rw [exposure_eq]
  cases inner.names <;> cases inner.scopes <;> simp [Exposure.ofMarkers, Exposure.showsNames]

theorem showsScopes_iff (inner : Assertion β) :
    inner.exposure.showsScopes ↔ inner.scopes ≠ [] := by
  rw [exposure_eq]
  cases inner.names <;> cases inner.scopes <;> simp [Exposure.ofMarkers, Exposure.showsScopes]

-- An assertion without names does not stand for one either, so that a lift which shows none hides
-- none.
theorem name?_eq_none_of_names (a : Assertion α) (hnames : a.names = []) : a.name? = none := by
  induction a using Assertion.induct with
  | leaf l => exact Option.toList_eq_nil_iff.mp hnames
  | all members =>
      have hmembers : members.names = [] := hnames
      rw [name?, hmembers, agreed]
  | shared inner ih => exact ih hnames
  | lift lens inner ih =>
      rw [names_lift] at hnames
      simp only [name?, ih hnames, ite_self]

theorem scope?_eq_none_of_scopes (a : Assertion α) (hscopes : a.scopes = []) :
    a.scope? = none := by
  induction a using Assertion.induct with
  | leaf l => exact Option.toList_eq_nil_iff.mp hscopes
  | all members =>
      have hmembers : members.scopes = [] := hscopes
      rw [scope?, hmembers, agreed]
  | shared inner ih => exact ih hscopes
  | lift lens inner ih =>
      rw [scopes_lift] at hscopes
      simp only [scope?, ih hscopes, ite_self]

theorem name?_lift (lens : Lens α β) (inner : Assertion β) :
    (lift lens inner).name? = inner.name? := by
  by_cases hshows : inner.exposure.showsNames
  · rw [name?, if_pos hshows]
  · have hnames : inner.names = [] := Decidable.of_not_not (mt inner.showsNames_iff.mpr hshows)
    rw [name?, if_neg hshows, inner.name?_eq_none_of_names hnames]

theorem scope?_lift (lens : Lens α β) (inner : Assertion β) :
    (lift lens inner).scope? = inner.scope? := by
  by_cases hshows : inner.exposure.showsScopes
  · rw [scope?, if_pos hshows]
  · have hscopes : inner.scopes = [] := Decidable.of_not_not (mt inner.showsScopes_iff.mpr hshows)
    rw [scope?, if_neg hshows, inner.scope?_eq_none_of_scopes hscopes]

-- An assertion, or what comes of lifting it any number of times, with handles on the way or not.
inductive Raised : {α β : Type} → Assertion α → Assertion β → Prop
  | same (a : Assertion α) : Raised a a
  | shared (hraised : Raised a b) : Raised a (.shared b)
  | lift (lens : Lens γ β) (hraised : Raised a b) : Raised a (.lift lens b)

theorem Raised.markers_eq {a : Assertion α} {b : Assertion β} (hraised : a.Raised b) :
    b.markers = a.markers := by
  induction hraised with
  | same => rfl
  | shared _ ih => exact ih
  | lift lens _ ih => rw [markers, Markers.exposed_eq, ih]

end Assertion

namespace Checklist

-- A list and what comes of lifting some of its members, or all of them to another type.
inductive Raised : {α β : Type} → Checklist α → Checklist β → Prop
  | nil : Raised (nil : Checklist α) (nil : Checklist β)
  | cons (hhead : head.Raised raisedHead) (hrest : Raised rest raisedRest) :
      Raised (cons head rest) (cons raisedHead raisedRest)

theorem Raised.markers_eq {list : Checklist α} {other : Checklist β} (hraised : list.Raised other) :
    other.markers = list.markers := by
  induction hraised with
  | nil => rfl
  | cons hhead _ ih => rw [markers, markers, hhead.markers_eq, ih]

end Checklist

-- A lift has the identity and the descriptions of what it lifts, and which markers it shows is told
-- by which there are.
structure Lens.KeepsIdentity (lens : Lens α β) (inner : Assertion β) : Prop where
  name?_eq : (Assertion.lift lens inner).name? = inner.name?
  scope?_eq : (Assertion.lift lens inner).scope? = inner.scope?
  names_eq : (Assertion.lift lens inner).names = inner.names
  scopes_eq : (Assertion.lift lens inner).scopes = inner.scopes
  describe_eq : (Assertion.lift lens inner).describe = inner.describe
  leafDescriptions_eq : (Assertion.lift lens inner).leafDescriptions = inner.leafDescriptions
  plain_iff : inner.exposure = .plain ↔ inner.names = [] ∧ inner.scopes = []
  named_iff : inner.exposure = .named ↔ inner.names ≠ [] ∧ inner.scopes = []
  namespaced_iff : inner.exposure = .namespaced ↔ inner.names = [] ∧ inner.scopes ≠ []
  identified_iff : inner.exposure = .identified ↔ inner.names ≠ [] ∧ inner.scopes ≠ []

theorem Lens.keepsIdentity (lens : Lens α β) (inner : Assertion β) : lens.KeepsIdentity inner where
  name?_eq := Assertion.name?_lift lens inner
  scope?_eq := Assertion.scope?_lift lens inner
  names_eq := Assertion.names_lift lens inner
  scopes_eq := Assertion.scopes_lift lens inner
  describe_eq := rfl
  leafDescriptions_eq := rfl
  plain_iff := (Exposure.ofMarkers_eq_iff inner.names inner.scopes).1
  named_iff := (Exposure.ofMarkers_eq_iff inner.names inner.scopes).2.1
  namespaced_iff := (Exposure.ofMarkers_eq_iff inner.names inner.scopes).2.2.1
  identified_iff := (Exposure.ofMarkers_eq_iff inner.names inner.scopes).2.2.2

namespace Checklist

-- Neither a lift nor any number of them in a list changes which object is meant, whatever the lenses
-- reach.
theorem lifting_keeps_identity :
    (∀ {α β : Type} (lens : Lens α β) (inner : Assertion β), lens.KeepsIdentity inner) ∧
      ∀ {α β : Type} (list : Checklist α) (other : Checklist β), list.Raised other →
        other.key = list.key ∧ other.scopeHint = list.scopeHint := by
  refine ⟨Lens.keepsIdentity, fun list other hraised => ?_⟩
  have hhint : other.scopeHint = list.scopeHint := by
    simp only [scopeHint, scopes, hraised.markers_eq]
  refine ⟨?_, hhint⟩
  simp only [key, names, hraised.markers_eq, hhint]

-- A name that is lifted twice, once by a lens that reaches no user signup, and a namespace that is
-- lifted once.
def addressed : Checklist Metadata :=
  .ofList [.leaf (MetadataRequirement.name "john").leaf,
    .leaf (MetadataRequirement.scope "toolchain").leaf]

def addressedSpace : Checklist Resource :=
  .ofList [.onSpace (.onMetadata (.leaf (MetadataRequirement.name "john").leaf)),
    .onMetadata (.leaf (MetadataRequirement.scope "toolchain").leaf)]

theorem lifting_keeps_identity_of_addressed :
    addressed.Raised addressedSpace ∧ addressedSpace.key = .ok (.inScope "toolchain" "john") ∧
      addressedSpace.key = addressed.key ∧ addressedSpace.scopeHint = addressed.scopeHint := by
  have hraised : addressed.Raised addressedSpace :=
    .cons (.lift Lens.asSpace (.lift (Lens.metadata Space) (.same _)))
      (.cons (.lift (Lens.metadata Resource) (.same _)) .nil)
  have hsame := lifting_keeps_identity.2 addressed addressedSpace hraised
  exact ⟨hraised, rfl, hsame⟩

end Checklist

end Eventually
