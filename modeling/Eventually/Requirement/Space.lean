import Eventually.Assertion.Basic
import Eventually.Resource.Space

namespace Eventually

variable [Stamps]

inductive SpaceRequirement where
  | tier (tier : String)
  | targetCluster (cluster : String)
deriving DecidableEq

namespace SpaceRequirement

def describe : SpaceRequirement → String
  | tier t => "tier is " ++ t
  | targetCluster c => "target cluster is " ++ c

def failures (space : Space) : SpaceRequirement → List String
  | tier t =>
      if space.tier = t then [] else ["expected tier '" ++ t ++ "', got '" ++ space.tier ++ "'"]
  | targetCluster c =>
      match space.targetCluster with
      | some actual =>
          if actual = c then []
          else ["expected target cluster '" ++ c ++ "', got '" ++ actual ++ "'"]
      | none => ["expected target cluster '" ++ c ++ "', none set"]

def fix (space : Space) : SpaceRequirement → Space
  | tier t => { space with tier := t }
  | targetCluster c => { space with targetCluster := some c }

def leaf (r : SpaceRequirement) : Leaf Space where
  description := r.describe
  check space := (r.failures space).map .failure
  fixer := some fun space => r.fix space

end SpaceRequirement

end Eventually
