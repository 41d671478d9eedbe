import Eventually.Proofs.Assertion.Cooperative
import Eventually.Proofs.Entries
import Eventually.Requirement.Metadata

namespace Eventually

namespace MetadataRequirement

theorem find?_eq_some_iff (f : String) (finalizers : List String) :
    finalizers.find? (· = f) = some f ↔ f ∈ finalizers := by
  induction finalizers with
  | nil => simp
  | cons g rest ih =>
      by_cases hg : g = f
      · simp [hg]
      · simp [hg, ih, Ne.symm hg]

theorem entryFailures_eq_nil_iff (what key expected : String) (found : Option String) :
    entryFailures what key expected found = [] ↔ found = some expected := by
  cases found with
  | none => simp [entryFailures]
  | some value => simp [entryFailures]

end MetadataRequirement

variable [Stamps]

namespace Metadata

-- The places that requirements look at. A finalizer is a place of its own.
inductive Place where
  | name
  | scope
  | labelled (key : String)
  | annotated (key : String)
  | finalizer (finalizer : String)
deriving DecidableEq

def read (m : Metadata) : Place → Option String
  | .name => some m.name
  | .scope => m.scope
  | .labelled key => m.labels.get? key
  | .annotated key => m.annotations.get? key
  | .finalizer f => m.finalizers.find? (· = f)

end Metadata

namespace MetadataRequirement

def place : MetadataRequirement → Metadata.Place
  | name _ => .name
  | scope _ => .scope
  | labelled key _ => .labelled key
  | unlabelled key => .labelled key
  | annotated key _ => .annotated key
  | finalizer f => .finalizer f

-- What is read at the place when the requirement holds.
def wanted : MetadataRequirement → Option String
  | name n => some n
  | scope s => some s
  | labelled _ value => some value
  | unlabelled _ => none
  | annotated _ value => some value
  | finalizer f => some f

theorem failures_eq_nil_iff (m : Metadata) (r : MetadataRequirement) :
    r.failures m = [] ↔ m.read r.place = r.wanted := by
  cases r with
  | name n => simp [failures, Metadata.read, place, wanted]
  | scope s => cases hscope : m.scope <;> simp [failures, Metadata.read, place, wanted, hscope]
  | labelled key value => exact entryFailures_eq_nil_iff "label" key value _
  | unlabelled key =>
      cases hfound : m.labels.get? key <;> simp [failures, Metadata.read, place, wanted, hfound]
  | annotated key value => exact entryFailures_eq_nil_iff "annotation" key value _
  | finalizer f =>
      simp only [failures, Metadata.read, place, wanted, find?_eq_some_iff]
      split <;> simp [*]

theorem leaf_holds_iff (r : MetadataRequirement) (m : Metadata) :
    r.leaf.Holds m ↔ m.read r.place = r.wanted :=
  (Report.forall_failure_iff (r.failures m)).trans (failures_eq_nil_iff m r)

-- A fix writes what is wanted at its place and nothing anywhere else.
theorem read_fix (r : MetadataRequirement) (m : Metadata) (other : Metadata.Place) :
    (r.fix m).read other = if r.place = other then r.wanted else m.read other := by
  cases r with
  | name n => cases other <;> simp [fix, Metadata.read, place, wanted]
  | scope s => cases other <;> simp [fix, Metadata.read, place, wanted]
  | labelled key value =>
      cases other <;> simp [fix, Metadata.read, place, wanted, LabelMap.get?_insert]
  | unlabelled key =>
      cases other <;> simp [fix, Metadata.read, place, wanted, LabelMap.get?_erase]
  | annotated key value =>
      cases other <;> simp [fix, Metadata.read, place, wanted, LabelMap.get?_insert]
  | finalizer f =>
      by_cases hmem : f ∈ m.finalizers
      · rw [fix, if_pos hmem]
        split
        · rename_i hplace
          subst hplace
          exact (find?_eq_some_iff f m.finalizers).mpr hmem
        · rfl
      · cases other with
        | finalizer g =>
            by_cases hfg : f = g
            · subst hfg
              have hlast : (m.finalizers ++ [f]).find? (· = f) = some f :=
                (find?_eq_some_iff f _).mpr (by simp)
              simp [fix, hmem, Metadata.read, place, wanted, hlast]
            · simp [fix, hmem, Metadata.read, place, hfg]
        | _ => simp [fix, hmem, Metadata.read, place]

theorem writes : Leaf.Writes leaf Metadata.read place wanted where
  holds_iff := leaf_holds_iff
  exists_fix r := ⟨_, rfl, fun m other => r.read_fix m other⟩

end MetadataRequirement

end Eventually
