import Eventually.Assertion.Basic
import Eventually.Resource.Metadata

namespace Eventually

variable [Stamps]

inductive MetadataRequirement where
  | name (name : String)
  | scope (scope : String)
  | labelled (key value : String)
  | unlabelled (key : String)
  | annotated (key value : String)
  | finalizer (finalizer : String)
deriving DecidableEq

namespace MetadataRequirement

def describe : MetadataRequirement → String
  | name n => "name is " ++ n
  | scope s => "namespace is " ++ s
  | labelled k v => "label " ++ k ++ "=" ++ v
  | unlabelled k => "no label " ++ k
  | annotated k v => "annotation " ++ k ++ "=" ++ v
  | finalizer f => "finalizer " ++ f

-- What is wrong with one value under a key that should be `expected`.
def entryFailures (what key expected : String) : Option String → List String
  | some value =>
      if value = expected then []
      else
        ["expected " ++ what ++ " '" ++ key ++ "' to be '" ++ expected ++ "', got '" ++ value ++
          "'"]
  | none => ["missing " ++ what ++ " '" ++ key ++ "'"]

def failures (m : Metadata) : MetadataRequirement → List String
  | name n => if m.name = n then [] else ["expected name '" ++ n ++ "', got '" ++ m.name ++ "'"]
  | scope s =>
      match m.scope with
      | some actual =>
          if actual = s then [] else ["expected namespace '" ++ s ++ "', got '" ++ actual ++ "'"]
      | none => ["expected namespace '" ++ s ++ "', object is cluster scoped"]
  | labelled k v => entryFailures "label" k v (m.labels.get? k)
  | unlabelled k =>
      match m.labels.get? k with
      | some value => ["expected no label '" ++ k ++ "', got '" ++ value ++ "'"]
      | none => []
  | annotated k v => entryFailures "annotation" k v (m.annotations.get? k)
  | finalizer f => if f ∈ m.finalizers then [] else ["missing finalizer '" ++ f ++ "'"]

def fix (m : Metadata) : MetadataRequirement → Metadata
  | name n => { m with name := n }
  | scope s => { m with scope := some s }
  | labelled k v => { m with labels := m.labels.insert k v }
  | unlabelled k => { m with labels := m.labels.erase k }
  | annotated k v => { m with annotations := m.annotations.insert k v }
  | finalizer f => if f ∈ m.finalizers then m else { m with finalizers := m.finalizers ++ [f] }

def pinnedName : MetadataRequirement → Option String
  | name n => some n
  | _ => none

def pinnedScope : MetadataRequirement → Option String
  | scope s => some s
  | _ => none

def leaf (r : MetadataRequirement) : Leaf Metadata where
  description := r.describe
  check m := (r.failures m).map .failure
  name := r.pinnedName
  scope := r.pinnedScope
  fixer := some fun m => r.fix m

end MetadataRequirement

end Eventually
