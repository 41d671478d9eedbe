import Eventually.Assertion.Basic
import Eventually.Resource.Item

namespace Eventually

inductive ItemRequirement where
  | name (name : String)
  | scope (scope : String)
  | atLeast (bound : Int64)
  | value (value : Int64)
deriving DecidableEq

namespace ItemRequirement

-- Item requirements are described by their kind alone.
def describe : ItemRequirement → String
  | name _ => "NameIs"
  | scope _ => "NamespaceIs"
  | atLeast _ => "AtLeast"
  | value _ => "ValueIs"

def failures (item : Item) : ItemRequirement → List String
  | name n => if item.name = n then [] else ["expected name " ++ n ++ ", got " ++ item.name]
  | scope s =>
      if item.scope = s then [] else ["expected namespace " ++ s ++ ", got " ++ item.scope]
  | atLeast bound =>
      if item.value < bound then
        ["expected at least " ++ toString bound ++ ", got " ++ toString item.value]
      else []
  | value v =>
      if item.value = v then []
      else ["expected value " ++ toString v ++ ", got " ++ toString item.value]

def pinnedName : ItemRequirement → Option String
  | name n => some n
  | _ => none

def pinnedScope : ItemRequirement → Option String
  | scope s => some s
  | _ => none

-- Only an exact value says what to change.
def fixer : ItemRequirement → Option (Item → Item)
  | value v => some fun item => { item with value := v }
  | _ => none

def leaf (r : ItemRequirement) : Leaf Item where
  description := r.describe
  check item := (r.failures item).map .failure
  name := r.pinnedName
  scope := r.pinnedScope
  fixer := r.fixer

end ItemRequirement

end Eventually
