import Eventually.Requirement.Part

namespace Eventually

-- A fluent builder, which appends to the list of its number. A clone of it has the same number.
structure Builder where
  list : Nat
deriving DecidableEq

-- A package of calls mounted on a builder. They append to a list, and the builder is handed back.
structure Mixin where
  parent : Builder
  list : Nat
deriving DecidableEq

-- As a rule a mixin shares the list of its builder.
def Builder.embed (builder : Builder) : Mixin := ⟨builder, builder.list⟩

-- What the next call of a chain is made on. A mixin owns its builder until it hands it back.
inductive Chain where
  | builder (builder : Builder)
  | mixin (mixin : Mixin)
deriving DecidableEq

namespace Chain

def builder? : Chain → Option Builder
  | builder b => some b
  | mixin _ => none

def mixin? : Chain → Option Mixin
  | builder _ => none
  | mixin m => some m

-- The builder that the chain is on, or comes back to.
def root : Chain → Builder
  | builder b => b
  | mixin m => m.parent

end Chain

-- One step of building checklists, chains and lists being numbered in the order of their making.
-- Only a builder can be cloned, mounted on, asked for a snapshot or told an assertion directly.
inductive BuildStep (α : Type) : Type 1 where
  | start
  | separate
  | clone (chain : Nat)
  | satisfies (chain : Nat) (a : Assertion α)
  | embed (chain : Nat)
  | wireUp (chain list : Nat)
  | add (chain : Nat) (a : Assertion α)
  | handBack (chain : Nat)
  | snapshot (chain : Nat)

namespace BuildStep

def andThen (chain : Nat) (a : Assertion α) : List (BuildStep α) := [add chain a, handBack chain]

-- A call of a mixin that is mounted for this call only.
def mounted (chain : Nat) (a : Assertion α) : List (BuildStep α) := embed chain :: andThen chain a

def onMetadata [Stamps] [WithMetadata α] [KindName α] (chain : Nat) (inner : Assertion Metadata) :
    List (BuildStep α) := mounted chain (.onMetadata inner)

def onConditions [Stamps] [WithConditions α] [KindName α] (chain : Nat)
    (inner : Assertion Conditions) : List (BuildStep α) := mounted chain (.onConditions inner)

-- Calls of a mixin on a list that need not be the one of the builder.
def wired (chain list : Nat) (additions : List (Assertion α)) : List (BuildStep α) :=
  wireUp chain list :: additions.map (add chain) ++ [handBack chain]

end BuildStep

-- The lists that are shared, the chains of calls on them, and the lists taken from builders.
structure Workshop (α : Type) : Type 1 where
  lists : List (Checklist α)
  chains : List Chain
  snapshots : List (Checklist α)

namespace Workshop

def empty : Workshop α := ⟨[], [], []⟩

def builder? (shop : Workshop α) (chain : Nat) : Option Builder :=
  shop.chains[chain]?.bind Chain.builder?

def mixin? (shop : Workshop α) (chain : Nat) : Option Mixin :=
  shop.chains[chain]?.bind Chain.mixin?

def push (shop : Workshop α) (list : Nat) (a : Assertion α) : Workshop α :=
  { shop with lists := shop.lists.modify list fun members => members.push a }

def put (shop : Workshop α) (chain : Nat) (next : Chain) : Workshop α :=
  { shop with chains := shop.chains.set chain next }

-- A step that the chain is not at is passed over.
def step (shop : Workshop α) : BuildStep α → Workshop α
  | .start =>
      { shop with
        lists := shop.lists ++ [.nil]
        chains := shop.chains ++ [.builder ⟨shop.lists.length⟩] }
  | .separate => { shop with lists := shop.lists ++ [.nil] }
  | .clone chain =>
      { shop with chains := shop.chains ++ ((shop.builder? chain).map Chain.builder).toList }
  | .satisfies chain a =>
      match shop.builder? chain with
      | some builder => shop.push builder.list a
      | none => shop
  | .embed chain =>
      match shop.builder? chain with
      | some builder => shop.put chain (.mixin builder.embed)
      | none => shop
  | .wireUp chain list =>
      match shop.builder? chain with
      | some builder =>
          if list < shop.lists.length then shop.put chain (.mixin ⟨builder, list⟩) else shop
      | none => shop
  | .add chain a =>
      match shop.mixin? chain with
      | some mixin => shop.push mixin.list a
      | none => shop
  | .handBack chain =>
      match shop.mixin? chain with
      | some mixin => shop.put chain (.builder mixin.parent)
      | none => shop
  | .snapshot chain =>
      { shop with
        snapshots := shop.snapshots ++
          ((shop.builder? chain).bind fun builder => shop.lists[builder.list]?).toList }

def run (shop : Workshop α) (steps : List (BuildStep α)) : Workshop α := steps.foldl step shop

-- A workshop with one builder.
def initial : Workshop α := empty.step .start

-- The list behind each chain.
def views (shop : Workshop α) : List (Checklist α) :=
  shop.chains.filterMap fun chain => shop.lists[chain.root.list]?

end Workshop

end Eventually
