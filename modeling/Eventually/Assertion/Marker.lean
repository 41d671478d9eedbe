import Eventually.Assertion.Basic

namespace Eventually

-- Which markers a lifted assertion shows, decided by the markers it finds below.
inductive Exposure where
  | plain
  | named
  | namespaced
  | identified
deriving DecidableEq

namespace Exposure

def ofMarkers (names scopes : List String) : Exposure :=
  match names.isEmpty, scopes.isEmpty with
  | true, true => plain
  | false, true => named
  | true, false => namespaced
  | false, false => identified

def showsNames : Exposure → Bool
  | named | identified => true
  | plain | namespaced => false

def showsScopes : Exposure → Bool
  | namespaced | identified => true
  | plain | named => false

def text : Exposure → String
  | plain => "Plain"
  | named => "Named"
  | namespaced => "Namespaced"
  | identified => "Identified"

end Exposure

-- The one value that all have, none if there is no value or they differ.
def agreed : List String → Option String
  | [] => none
  | first :: rest => if rest.all (· == first) then some first else none

-- The names and namespaces that leaves pin down, repetitions and disagreements kept.
structure Markers where
  names : List String := []
  scopes : List String := []
deriving DecidableEq

namespace Markers

def append (first second : Markers) : Markers :=
  ⟨first.names ++ second.names, first.scopes ++ second.scopes⟩

def exposure (markers : Markers) : Exposure := Exposure.ofMarkers markers.names markers.scopes

-- What is left of the markers behind a lift.
def exposed (markers : Markers) : Markers where
  names := if markers.exposure.showsNames then markers.names else []
  scopes := if markers.exposure.showsScopes then markers.scopes else []

end Markers

mutual

def Assertion.markers : Assertion α → Markers
  | .leaf l => ⟨l.name.toList, l.scope.toList⟩
  | .all members => members.markers
  | .shared inner => inner.markers
  | .lift _ inner => inner.markers.exposed

def Checklist.markers : Checklist α → Markers
  | .nil => {}
  | .cons head rest => head.markers.append rest.markers

end

namespace Checklist

def names (list : Checklist α) : List String := list.markers.names

def scopes (list : Checklist α) : List String := list.markers.scopes

end Checklist

namespace Assertion

def names (a : Assertion α) : List String := a.markers.names

def scopes (a : Assertion α) : List String := a.markers.scopes

def exposure (inner : Assertion α) : Exposure := inner.markers.exposure

-- The one name that an assertion stands for: a checklist has one only if its members agree.
def name? : Assertion α → Option String
  | leaf l => l.name
  | all members => agreed members.names
  | shared inner => inner.name?
  | lift _ inner => if inner.exposure.showsNames then inner.name? else none

def scope? : Assertion α → Option String
  | leaf l => l.scope
  | all members => agreed members.scopes
  | shared inner => inner.scope?
  | lift _ inner => if inner.exposure.showsScopes then inner.scope? else none

end Assertion

end Eventually
