import Eventually.Workshop
import Mathlib.Data.List.Basic

namespace Eventually

namespace Checklist

theorem ofList_concat (members : List (Assertion α)) (a : Assertion α) :
    ofList (members ++ [a]) = (ofList members).push a := by
  induction members with
  | nil => rfl
  | cons head rest ih => rw [List.cons_append, ofList, ih, ofList, push, push, append]

theorem foldl_push (members more : List (Assertion α)) :
    more.foldl push (ofList members) = ofList (members ++ more) := by
  induction more generalizing members with
  | nil => rw [List.foldl_nil, List.append_nil]
  | cons a rest ih =>
      rw [List.foldl_cons, ← ofList_concat, ih, List.append_assoc, List.singleton_append]

end Checklist

namespace Workshop

-- The list that a step appends to, and what it appends.
def call? (shop : Workshop α) : BuildStep α → Option (Nat × Assertion α)
  | .satisfies chain a => (shop.builder? chain).map fun builder => (builder.list, a)
  | .add chain a => (shop.mixin? chain).map fun mixin => (mixin.list, a)
  | _ => none

-- New lists are empty.
def made : BuildStep α → List (Checklist α)
  | .start => [.nil]
  | .separate => [.nil]
  | _ => []

-- The chain that a step moves between a builder and a mixin, and what it is on next.
def moved? (shop : Workshop α) : BuildStep α → Option (Nat × Chain)
  | .embed chain => (shop.builder? chain).map fun builder => (chain, .mixin builder.embed)
  | .wireUp chain list =>
      if list < shop.lists.length then
        (shop.builder? chain).map fun builder => (chain, .mixin ⟨builder, list⟩)
      else none
  | .handBack chain => (shop.mixin? chain).map fun mixin => (chain, .builder mixin.parent)
  | _ => none

-- The builder of a chain that a step begins, a fresh one or a clone.
def arrives? (shop : Workshop α) : BuildStep α → Option Builder
  | .start => some ⟨shop.lists.length⟩
  | .clone chain => shop.builder? chain
  | _ => none

def taken? (shop : Workshop α) : BuildStep α → Option (Checklist α)
  | .snapshot chain => (shop.builder? chain).bind fun builder => shop.lists[builder.list]?
  | _ => none

-- What a step can do: it makes at most one call and one list, moves at most one chain, begins at
-- most one and takes at most one list. All that is kept through a run is read off this.
theorem step_eq (shop : Workshop α) (s : BuildStep α) :
    shop.step s =
      { lists := ((shop.call? s).elim shop.lists fun call =>
          shop.lists.modify call.1 fun members => members.push call.2) ++ made s
        chains := ((shop.moved? s).elim shop.chains fun move => shop.chains.set move.1 move.2) ++
          ((shop.arrives? s).map Chain.builder).toList
        snapshots := shop.snapshots ++ (shop.taken? s).toList } := by
  cases s with
  | start | separate | clone chain | snapshot chain =>
      simp [step, call?, made, moved?, arrives?, taken?]
  | satisfies chain a | embed chain =>
      cases hbuilder : shop.builder? chain <;>
        simp [step, call?, made, moved?, arrives?, taken?, push, put, hbuilder]
  | wireUp chain list =>
      by_cases hlist : list < shop.lists.length <;> cases hbuilder : shop.builder? chain <;>
        simp [step, call?, made, moved?, arrives?, taken?, put, hbuilder, hlist]
  | add chain a | handBack chain =>
      cases hmixin : shop.mixin? chain <;>
        simp [step, call?, made, moved?, arrives?, taken?, push, put, hmixin]

-- The calls of a run, in their order.
def calls (shop : Workshop α) : List (BuildStep α) → List (Nat × Assertion α)
  | [] => []
  | s :: rest => (shop.call? s).toList ++ (shop.step s).calls rest

-- The calls under one number.
def callsUnder (calls : List (Nat × Assertion α)) (number : Nat) : List (Assertion α) :=
  calls.filterMap fun call => if call.1 = number then some call.2 else none

-- What a run appends to one list.
def additions (shop : Workshop α) (steps : List (BuildStep α)) (list : Nat) :
    List (Assertion α) := callsUnder (shop.calls steps) list

-- The builder that a chain is on or comes back to.
def root? (shop : Workshop α) (chain : Nat) : Option Builder := shop.chains[chain]?.map Chain.root

def roots (shop : Workshop α) : List Builder := shop.chains.map Chain.root

-- The list under a number, which is empty if it has not been made.
def listAt (shop : Workshop α) (list : Nat) : Checklist α := shop.lists.getD list .nil

theorem callsUnder_append (calls more : List (Nat × Assertion α)) (number : Nat) :
    callsUnder (calls ++ more) number = callsUnder calls number ++ callsUnder more number :=
  List.filterMap_append

theorem callsUnder_eq_nil {calls : List (Nat × Assertion α)} {number : Nat}
    (hother : ∀ call ∈ calls, call.1 ≠ number) : callsUnder calls number = [] :=
  List.filterMap_eq_nil_iff.mpr fun call hcall => if_neg (hother call hcall)

section

variable {shop : Workshop α} {chain : Nat}

theorem getElem?_of_builder? {builder : Builder} (hbuilder : shop.builder? chain = some builder) :
    shop.chains[chain]? = some (.builder builder) := by
  obtain ⟨c, hc, hb⟩ := Option.bind_eq_some_iff.mp hbuilder
  cases c <;> cases hb
  exact hc

theorem getElem?_of_mixin? {mixin : Mixin} (hmixin : shop.mixin? chain = some mixin) :
    shop.chains[chain]? = some (.mixin mixin) := by
  obtain ⟨c, hc, hm⟩ := Option.bind_eq_some_iff.mp hmixin
  cases c <;> cases hm
  exact hc

theorem root?_of_builder? {builder : Builder} (hbuilder : shop.builder? chain = some builder) :
    shop.root? chain = some builder := by
  rw [root?, getElem?_of_builder? hbuilder]
  rfl

theorem root?_of_mixin? {mixin : Mixin} (hmixin : shop.mixin? chain = some mixin) :
    shop.root? chain = some mixin.parent := by
  rw [root?, getElem?_of_mixin? hmixin]
  rfl

theorem root?_eq (shop : Workshop α) (chain : Nat) : shop.root? chain = shop.roots[chain]? :=
  List.getElem?_map.symm

theorem mem_roots_of_builder? {builder : Builder} (hbuilder : shop.builder? chain = some builder) :
    builder ∈ shop.roots := by
  have hroot := root?_of_builder? hbuilder
  rw [root?_eq] at hroot
  exact List.mem_of_getElem? hroot

-- A mixin comes of a builder and goes back to it.
theorem root_moved {s : BuildStep α} {next : Chain} (hmoved : shop.moved? s = some (chain, next)) :
    shop.root? chain = some next.root := by
  cases s with
  | embed c =>
      obtain ⟨builder, hbuilder, hnext⟩ := Option.map_eq_some_iff.mp hmoved
      cases hnext
      exact root?_of_builder? hbuilder
  | wireUp c list =>
      obtain ⟨_, hmoved⟩ := Option.ite_none_right_eq_some.mp hmoved
      obtain ⟨builder, hbuilder, hnext⟩ := Option.map_eq_some_iff.mp hmoved
      cases hnext
      exact root?_of_builder? hbuilder
  | handBack c =>
      obtain ⟨mixin, hmixin, hnext⟩ := Option.map_eq_some_iff.mp hmoved
      cases hnext
      exact root?_of_mixin? hmixin
  | _ => cases hmoved

-- Every chain stays on the builder that it began with.
theorem roots_step (shop : Workshop α) (s : BuildStep α) :
    (shop.step s).roots = shop.roots ++ (shop.arrives? s).toList := by
  have harrived : ((shop.arrives? s).map Chain.builder).toList.map Chain.root =
      (shop.arrives? s).toList := by
    cases shop.arrives? s <;> rfl
  rw [roots, step_eq, List.map_append, harrived]
  cases hmoved : shop.moved? s with
  | none => rfl
  | some move =>
      obtain ⟨chain, next⟩ := move
      have hroot := root_moved hmoved
      rw [root?_eq] at hroot
      obtain ⟨_, hget⟩ := List.getElem?_eq_some_iff.mp hroot
      rw [Option.elim_some, List.map_set, ← hget]
      congr 1
      exact List.set_getElem_self _

theorem mem_chains_step {s : BuildStep α} {c : Chain} (hc : c ∈ (shop.step s).chains) :
    c ∈ shop.chains ∨ (∃ chain, shop.moved? s = some (chain, c)) ∨
      ∃ builder, shop.arrives? s = some builder ∧ c = .builder builder := by
  rw [step_eq] at hc
  rcases List.mem_append.mp hc with hc | hc
  · cases hmoved : shop.moved? s with
    | none =>
        rw [hmoved] at hc
        exact .inl hc
    | some move =>
        rw [hmoved] at hc
        rcases List.mem_or_eq_of_mem_set hc with hc | rfl
        · exact .inl hc
        · exact .inr (.inl ⟨move.1, rfl⟩)
  · obtain ⟨builder, hbuilder, rfl⟩ := Option.map_eq_some_iff.mp (Option.mem_toList.mp hc)
    exact .inr (.inr ⟨builder, hbuilder, rfl⟩)

theorem length_lists_step (shop : Workshop α) (s : BuildStep α) :
    (shop.step s).lists.length = shop.lists.length + (made s).length := by
  rw [step_eq, List.length_append]
  cases shop.call? s with
  | none => rfl
  | some call => rw [Option.elim_some, List.length_modify]

end

end Workshop

-- The lists of a chain are among so many.
def Chain.Within (count : Nat) : Chain → Prop
  | builder b => b.list < count
  | mixin m => m.parent.list < count ∧ m.list < count

theorem Chain.Within.mono {chain : Chain} {count more : Nat} (hchain : chain.Within count)
    (hle : count ≤ more) : chain.Within more := by
  cases chain with
  | builder b => exact Nat.lt_of_lt_of_le hchain hle
  | mixin m => exact ⟨Nat.lt_of_lt_of_le hchain.1 hle, Nat.lt_of_lt_of_le hchain.2 hle⟩

theorem Chain.Within.root {chain : Chain} {count : Nat} (hchain : chain.Within count) :
    chain.root.list < count := by
  cases chain with
  | builder b => exact hchain
  | mixin m => exact hchain.1

namespace Workshop

-- No chain appends to a list that has not been made.
def Sound (shop : Workshop α) : Prop := ∀ chain ∈ shop.chains, chain.Within shop.lists.length

section

variable {shop : Workshop α}

theorem Sound.builder (hsound : shop.Sound) {chain : Nat} {builder : Builder}
    (hbuilder : shop.builder? chain = some builder) : builder.list < shop.lists.length :=
  hsound _ (List.mem_of_getElem? (getElem?_of_builder? hbuilder))

theorem Sound.mixin (hsound : shop.Sound) {chain : Nat} {mixin : Mixin}
    (hmixin : shop.mixin? chain = some mixin) :
    mixin.parent.list < shop.lists.length ∧ mixin.list < shop.lists.length :=
  hsound _ (List.mem_of_getElem? (getElem?_of_mixin? hmixin))

theorem Sound.call (hsound : shop.Sound) {s : BuildStep α} {call : Nat × Assertion α}
    (hcall : shop.call? s = some call) : call.1 < shop.lists.length := by
  cases s with
  | satisfies chain a =>
      obtain ⟨builder, hbuilder, rfl⟩ := Option.map_eq_some_iff.mp hcall
      exact hsound.builder hbuilder
  | add chain a =>
      obtain ⟨mixin, hmixin, rfl⟩ := Option.map_eq_some_iff.mp hcall
      exact (hsound.mixin hmixin).2
  | _ => cases hcall

theorem Sound.moved (hsound : shop.Sound) {s : BuildStep α} {chain : Nat} {next : Chain}
    (hmoved : shop.moved? s = some (chain, next)) : next.Within shop.lists.length := by
  cases s with
  | embed c =>
      obtain ⟨builder, hbuilder, hnext⟩ := Option.map_eq_some_iff.mp hmoved
      cases hnext
      exact ⟨hsound.builder hbuilder, hsound.builder hbuilder⟩
  | wireUp c list =>
      obtain ⟨hlist, hmoved⟩ := Option.ite_none_right_eq_some.mp hmoved
      obtain ⟨builder, hbuilder, hnext⟩ := Option.map_eq_some_iff.mp hmoved
      cases hnext
      exact ⟨hsound.builder hbuilder, hlist⟩
  | handBack c =>
      obtain ⟨mixin, hmixin, hnext⟩ := Option.map_eq_some_iff.mp hmoved
      cases hnext
      exact (hsound.mixin hmixin).1
  | _ => cases hmoved

theorem Sound.arrives (hsound : shop.Sound) {s : BuildStep α} {builder : Builder}
    (harrives : shop.arrives? s = some builder) :
    builder.list < shop.lists.length + (made s).length := by
  cases s with
  | start =>
      cases harrives
      exact Nat.lt_succ_self _
  | clone chain => exact Nat.lt_add_right _ (hsound.builder harrives)
  | _ => cases harrives

theorem Sound.step (hsound : shop.Sound) (s : BuildStep α) : (shop.step s).Sound := by
  intro c hc
  rw [length_lists_step]
  rcases mem_chains_step hc with hc | ⟨chain, hmoved⟩ | ⟨builder, harrives, rfl⟩
  · exact (hsound c hc).mono (Nat.le_add_right ..)
  · exact (hsound.moved hmoved).mono (Nat.le_add_right ..)
  · exact hsound.arrives harrives

theorem Sound.run (hsound : shop.Sound) (steps : List (BuildStep α)) : (shop.run steps).Sound := by
  induction steps generalizing shop with
  | nil => exact hsound
  | cons s rest ih => exact ih (hsound.step s)

theorem listAt_step (hsound : shop.Sound) (s : BuildStep α) (list : Nat) :
    (shop.step s).listAt list =
      (callsUnder (shop.call? s).toList list).foldl Checklist.push (shop.listAt list) := by
  have hnew (lists : List (Checklist α)) :
      (lists ++ made s).getD list .nil = lists.getD list .nil := by
    cases s <;> simp only [made, List.append_nil] <;> grind
  rw [listAt, step_eq, hnew]
  cases hcall : shop.call? s with
  | none => rfl
  | some call =>
      have hlt := hsound.call hcall
      by_cases hlist : call.1 = list
      · subst hlist
        simp [callsUnder, listAt, List.getD_eq_getElem?_getD, hlt]
      · simp [callsUnder, listAt, List.getD_eq_getElem?_getD, hlist]

end

end Workshop

end Eventually
