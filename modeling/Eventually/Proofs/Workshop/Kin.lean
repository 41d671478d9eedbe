import Eventually.Proofs.Workshop.Runs

namespace Eventually

-- The chains so far by the fresh builder that each comes from, and by the builder it is on: the one
-- tells them apart as the other does.
structure Kin (origins : List Nat) (roots : List Builder) : Prop where
  length_eq : origins.length = roots.length
  origin_lt : ∀ origin ∈ origins, origin < origins.length
  same_iff : ∀ p ∈ origins.zip roots, ∀ q ∈ origins.zip roots, p.1 = q.1 ↔ p.2 = q.2

namespace Kin

variable {origins : List Nat} {roots : List Builder}

theorem zip_concat (hkin : Kin origins roots) (origin : Nat) (root : Builder) :
    (origins ++ [origin]).zip (roots ++ [root]) = origins.zip roots ++ [(origin, root)] := by
  rw [List.zip_append hkin.length_eq]
  rfl

theorem fresh (hkin : Kin origins roots) {root : Builder} (hroot : root ∉ roots) :
    Kin (origins ++ [origins.length]) (roots ++ [root]) := by
  have hapart : ∀ p ∈ origins.zip roots, p.1 ≠ origins.length ∧ p.2 ≠ root := by
    intro p hp
    obtain ⟨horigin, hmem⟩ := List.of_mem_zip hp
    exact ⟨Nat.ne_of_lt (hkin.origin_lt _ horigin), fun heq => hroot (heq ▸ hmem)⟩
  constructor
  case length_eq => simp [hkin.length_eq]
  case origin_lt =>
    rw [List.length_append, List.length_singleton]
    refine List.forall_mem_append.mpr ⟨fun origin horigin => ?_, by simp⟩
    exact Nat.lt_succ_of_lt (hkin.origin_lt origin horigin)
  case same_iff =>
    rw [hkin.zip_concat]
    intro p hp q hq
    rcases List.mem_append.mp hp with hp | hp <;> rcases List.mem_append.mp hq with hq | hq
    · exact hkin.same_iff p hp q hq
    · rw [List.mem_singleton.mp hq]
      exact iff_of_false (hapart p hp).1 (hapart p hp).2
    · rw [List.mem_singleton.mp hp]
      exact iff_of_false (hapart q hq).1.symm (hapart q hq).2.symm
    · rw [List.mem_singleton.mp hp, List.mem_singleton.mp hq]
      exact iff_of_true rfl rfl

theorem clone (hkin : Kin origins roots) {origin : Nat} {root : Builder}
    (hmem : (origin, root) ∈ origins.zip roots) : Kin (origins ++ [origin]) (roots ++ [root]) := by
  have hold : ∀ p ∈ origins.zip roots ++ [(origin, root)], p ∈ origins.zip roots := by
    refine List.forall_mem_append.mpr ⟨fun _ hp => hp, ?_⟩
    exact List.forall_mem_singleton.mpr hmem
  constructor
  case length_eq => simp [hkin.length_eq]
  case origin_lt =>
    rw [List.length_append, List.length_singleton]
    refine List.forall_mem_append.mpr ⟨fun origin horigin => ?_, List.forall_mem_singleton.mpr ?_⟩
    · exact Nat.lt_succ_of_lt (hkin.origin_lt origin horigin)
    · exact Nat.lt_succ_of_lt (hkin.origin_lt origin (List.of_mem_zip hmem).1)
  case same_iff =>
    rw [hkin.zip_concat]
    exact fun p hp q hq => hkin.same_iff p (hold p hp) q (hold q hq)

theorem exists_origin (hkin : Kin origins roots) {chain : Nat} {root : Builder}
    (hroot : roots[chain]? = some root) :
    ∃ origin, origins[chain]? = some origin ∧ (origin, root) ∈ origins.zip roots := by
  obtain ⟨hlt, _⟩ := List.getElem?_eq_some_iff.mp hroot
  have horigin := List.getElem?_eq_getElem (hkin.length_eq ▸ hlt)
  exact ⟨_, horigin, List.mem_of_getElem? (List.getElem?_zip_eq_some.mpr ⟨horigin, hroot⟩)⟩

end Kin

namespace Workshop

-- The fresh builder, by the number of its chain, that the chain begun by a step comes from.
def origin? (shop : Workshop α) (known : List Nat) : BuildStep α → Option Nat
  | .start => some known.length
  | .clone chain => (shop.builder? chain).bind fun _ => known[chain]?
  | _ => none

def originsFrom (shop : Workshop α) (known : List Nat) : List (BuildStep α) → List Nat
  | [] => known
  | s :: rest => (shop.step s).originsFrom (known ++ (shop.origin? known s).toList) rest

-- The chain that a step begins is the first of its kin, or its builder has been there before.
theorem arrives_cases {shop : Workshop α} {known : List Nat} (hkin : Kin known shop.roots)
    (s : BuildStep α) :
    (s = .start ∧ shop.origin? known s = some known.length ∧
        shop.arrives? s = some ⟨shop.lists.length⟩) ∨
      (∃ origin root, shop.origin? known s = some origin ∧ shop.arrives? s = some root ∧
        (origin, root) ∈ known.zip shop.roots) ∨
      (shop.origin? known s = none ∧ shop.arrives? s = none) := by
  cases s with
  | start => exact .inl ⟨rfl, rfl, rfl⟩
  | clone chain =>
      right
      cases hbuilder : shop.builder? chain with
      | none => exact .inr ⟨by rw [origin?, hbuilder, Option.bind_none], hbuilder⟩
      | some builder =>
          have hroot := root?_of_builder? hbuilder
          rw [root?_eq] at hroot
          obtain ⟨origin, horigin, hpair⟩ := hkin.exists_origin hroot
          exact .inl ⟨origin, builder, by rw [origin?, hbuilder, Option.bind_some, horigin],
            hbuilder, hpair⟩
  | _ => exact .inr (.inr ⟨rfl, rfl⟩)

theorem Sound.fresh {shop : Workshop α} (hsound : shop.Sound) :
    ⟨shop.lists.length⟩ ∉ shop.roots := by
  intro hmem
  obtain ⟨c, hc, hroot⟩ := List.mem_map.mp hmem
  have hlt := (hsound c hc).root
  rw [hroot] at hlt
  exact Nat.lt_irrefl _ hlt

theorem kin_step {shop : Workshop α} {known : List Nat} (hsound : shop.Sound)
    (hkin : Kin known shop.roots) (s : BuildStep α) :
    Kin (known ++ (shop.origin? known s).toList) (shop.step s).roots := by
  rw [roots_step]
  rcases arrives_cases hkin s with ⟨_, horigin, hroot⟩ | ⟨origin, root, horigin, hroot, hpair⟩ |
    ⟨horigin, hroot⟩
  · rw [horigin, hroot]
    exact hkin.fresh hsound.fresh
  · rw [horigin, hroot]
    exact hkin.clone hpair
  · rw [horigin, hroot, Option.toList_none, Option.toList_none, List.append_nil, List.append_nil]
    exact hkin

theorem mem_zip_step {shop : Workshop α} {known : List Nat} (hkin : Kin known shop.roots)
    {s : BuildStep α} {p : Nat × Builder}
    (hp : p ∈ (known ++ (shop.origin? known s).toList).zip (shop.step s).roots) :
    p ∈ known.zip shop.roots ∨ s = .start ∧ p = (known.length, ⟨shop.lists.length⟩) := by
  rw [roots_step] at hp
  rcases arrives_cases hkin s with ⟨hs, horigin, hroot⟩ | ⟨origin, root, horigin, hroot, hpair⟩ |
    ⟨horigin, hroot⟩
  · rw [horigin, hroot] at hp
    rcases List.mem_append.mp (hkin.zip_concat .. ▸ hp) with hp | hp
    · exact .inl hp
    · exact .inr ⟨hs, List.mem_singleton.mp hp⟩
  · rw [horigin, hroot] at hp
    rcases List.mem_append.mp (hkin.zip_concat .. ▸ hp) with hp | hp
    · exact .inl hp
    · exact .inl (List.mem_singleton.mp hp ▸ hpair)
  · rw [horigin, hroot, Option.toList_none, Option.toList_none, List.append_nil,
      List.append_nil] at hp
    exact .inl hp

-- The call that a step makes on the list of the builder that its chain is on, by the fresh builder
-- that the chain comes from.
def kinCall? (shop : Workshop α) (known : List Nat) : BuildStep α → Option (Nat × Assertion α)
  | .satisfies chain a => (shop.builder? chain).bind fun _ => known[chain]?.map (·, a)
  | .add chain a => (shop.mixin? chain).bind fun mixin =>
      if mixin.list = mixin.parent.list then known[chain]?.map (·, a) else none
  | _ => none

def kinCallsFrom (shop : Workshop α) (known : List Nat) :
    List (BuildStep α) → List (Nat × Assertion α)
  | [] => []
  | s :: rest =>
      (shop.kinCall? known s).toList ++
        (shop.step s).kinCallsFrom (known ++ (shop.origin? known s).toList) rest

-- A mixin is not wired to the list of a builder other than its own.
def WiresApart (shop : Workshop α) : BuildStep α → Prop
  | .wireUp chain list => ∀ builder, shop.builder? chain = some builder →
      ∀ root ∈ shop.roots, list = root.list → root = builder
  | _ => True

def WiredApart (shop : Workshop α) : List (BuildStep α) → Prop
  | [] => True
  | s :: rest => shop.WiresApart s ∧ (shop.step s).WiredApart rest

end Workshop

-- The list of a mixin is the one of its builder or of none.
def Chain.Apart (roots : List Builder) : Chain → Prop
  | builder _ => True
  | mixin m => ∀ root ∈ roots, m.list = root.list → root = m.parent

namespace Workshop

def Apart (shop : Workshop α) : Prop := ∀ chain ∈ shop.chains, chain.Apart shop.roots

section

variable {shop : Workshop α}

-- A fresh builder has a list that no mixin has been wired to.
theorem Apart.arrives (hsound : shop.Sound) (hapart : shop.Apart) (s : BuildStep α) {c : Chain}
    (hc : c ∈ shop.chains) : c.Apart (shop.roots ++ (shop.arrives? s).toList) := by
  cases c with
  | builder b => trivial
  | mixin m =>
      intro root hroot hlist
      rcases List.mem_append.mp hroot with hroot | hroot
      · exact hapart _ hc root hroot hlist
      · cases s with
        | start =>
            cases List.mem_singleton.mp hroot
            exact absurd hlist (Nat.ne_of_lt (hsound _ hc).2)
        | clone chain =>
            exact hapart _ hc root (mem_roots_of_builder? (Option.mem_toList.mp hroot)) hlist
        | _ => cases hroot

theorem Apart.moved {s : BuildStep α} (hwires : shop.WiresApart s) {chain : Nat} {next : Chain}
    (hmoved : shop.moved? s = some (chain, next)) :
    next.Apart (shop.roots ++ (shop.arrives? s).toList) := by
  cases s with
  | embed c =>
      obtain ⟨builder, _, hnext⟩ := Option.map_eq_some_iff.mp hmoved
      cases hnext
      exact fun root _ hlist => congrArg Builder.mk hlist.symm
  | wireUp c list =>
      obtain ⟨_, hmoved⟩ := Option.ite_none_right_eq_some.mp hmoved
      obtain ⟨builder, hbuilder, hnext⟩ := Option.map_eq_some_iff.mp hmoved
      cases hnext
      simp only [arrives?, Option.toList_none, List.append_nil]
      exact hwires builder hbuilder
  | handBack c =>
      obtain ⟨mixin, _, hnext⟩ := Option.map_eq_some_iff.mp hmoved
      cases hnext
      trivial
  | _ => cases hmoved

theorem Apart.step (hsound : shop.Sound) (hapart : shop.Apart) {s : BuildStep α}
    (hwires : shop.WiresApart s) : (shop.step s).Apart := by
  intro c hc
  rw [roots_step]
  rcases mem_chains_step hc with hc | ⟨chain, hmoved⟩ | ⟨builder, _, rfl⟩
  · exact hapart.arrives hsound s hc
  · exact Apart.moved hwires hmoved
  · trivial

end

-- The list of each builder is made of the calls so far on the chains of its kin.
structure Tallied (shop : Workshop α) (known : List Nat) (done : List (Nat × Assertion α)) :
    Prop where
  sound : shop.Sound
  kin : Kin known shop.roots
  apart : shop.Apart
  done_lt : ∀ call ∈ done, call.1 < known.length
  listAt_eq : ∀ p ∈ known.zip shop.roots, shop.listAt p.2.list = .ofList (callsUnder done p.1)

section

variable {shop : Workshop α} {known : List Nat} {done : List (Nat × Assertion α)}

theorem callsUnder_eq (hkin : Kin known shop.roots) {chain : Nat} {builder : Builder}
    (hbuilder : shop.root? chain = some builder) (a : Assertion α) {p : Nat × Builder}
    (hp : p ∈ known.zip shop.roots) :
    callsUnder [(builder.list, a)] p.2.list =
      callsUnder (known[chain]?.map (·, a)).toList p.1 := by
  rw [root?_eq] at hbuilder
  obtain ⟨origin, horigin, hpair⟩ := hkin.exists_origin hbuilder
  have hiff : builder.list = p.2.list ↔ origin = p.1 :=
    Iff.trans ⟨congrArg Builder.mk, congrArg Builder.list⟩ (hkin.same_iff _ hpair p hp).symm
  simp only [horigin, Option.map_some, Option.toList_some, callsUnder, List.filterMap_cons,
    List.filterMap_nil, hiff]

-- What a step appends to the list of a builder is what it calls on the chains of its kin.
theorem Tallied.call_eq (htallied : Tallied shop known done) (s : BuildStep α)
    {p : Nat × Builder} (hp : p ∈ known.zip shop.roots) :
    callsUnder (shop.call? s).toList p.2.list = callsUnder (shop.kinCall? known s).toList p.1 := by
  cases s with
  | satisfies chain a =>
      cases hbuilder : shop.builder? chain with
      | none => simp only [call?, kinCall?, hbuilder]; rfl
      | some builder =>
          simp only [call?, kinCall?, hbuilder]
          exact callsUnder_eq htallied.kin (root?_of_builder? hbuilder) a hp
  | add chain a =>
      cases hmixin : shop.mixin? chain with
      | none => simp only [call?, kinCall?, hmixin]; rfl
      | some mixin =>
          simp only [call?, kinCall?, hmixin, Option.map_some, Option.bind_some, Option.toList_some]
          by_cases hown : mixin.list = mixin.parent.list
          · rw [if_pos hown, hown]
            exact callsUnder_eq htallied.kin (root?_of_mixin? hmixin) a hp
          · -- A mixin that is wired to another list leaves those of all builders alone.
            have hmem := htallied.apart _ (List.mem_of_getElem? (getElem?_of_mixin? hmixin))
            have hother : mixin.list ≠ p.2.list := fun hsame =>
              hown (hmem p.2 (List.of_mem_zip hp).2 hsame ▸ hsame)
            simp only [callsUnder, List.filterMap_cons, if_neg hother, if_neg hown,
              List.filterMap_nil, Option.toList_none]
  | _ => rfl

theorem kinCall?_lt (hkin : Kin known shop.roots) {s : BuildStep α} {call : Nat × Assertion α}
    (hcall : shop.kinCall? known s = some call) : call.1 < known.length := by
  have hlt {chain : Nat} {a : Assertion α} (hknown : known[chain]?.map (·, a) = some call) :
      call.1 < known.length := by
    obtain ⟨origin, horigin, rfl⟩ := Option.map_eq_some_iff.mp hknown
    exact hkin.origin_lt origin (List.mem_of_getElem? horigin)
  cases s with
  | satisfies chain a =>
      obtain ⟨_, _, hknown⟩ := Option.bind_eq_some_iff.mp hcall
      exact hlt hknown
  | add chain a =>
      obtain ⟨_, _, hknown⟩ := Option.bind_eq_some_iff.mp hcall
      exact hlt (Option.ite_none_right_eq_some.mp hknown).2
  | _ => cases hcall

theorem Tallied.step (htallied : Tallied shop known done) {s : BuildStep α}
    (hwires : shop.WiresApart s) :
    Tallied (shop.step s) (known ++ (shop.origin? known s).toList)
      (done ++ (shop.kinCall? known s).toList) := by
  constructor
  case sound => exact htallied.sound.step s
  case kin => exact kin_step htallied.sound htallied.kin s
  case apart => exact htallied.apart.step htallied.sound hwires
  case done_lt =>
    intro call hcall
    rw [List.length_append]
    refine Nat.lt_add_right _ ?_
    rcases List.mem_append.mp hcall with hcall | hcall
    · exact htallied.done_lt call hcall
    · exact kinCall?_lt htallied.kin (Option.mem_toList.mp hcall)
  case listAt_eq =>
    intro p hp
    rw [listAt_step htallied.sound, callsUnder_append]
    rcases mem_zip_step htallied.kin hp with hp | ⟨rfl, rfl⟩
    · rw [htallied.listAt_eq p hp, htallied.call_eq s hp, Checklist.foldl_push]
    · have hnone : callsUnder done known.length = [] :=
        callsUnder_eq_nil fun call hcall => Nat.ne_of_lt (htallied.done_lt call hcall)
      have hfresh : shop.listAt shop.lists.length = .nil := by
        rw [listAt, List.getD_eq_getElem?_getD, List.getElem?_eq_none (Nat.le_refl _),
          Option.getD_none]
      rw [hnone]
      exact hfresh

theorem Tallied.run (htallied : Tallied shop known done) {steps : List (BuildStep α)}
    (hwired : shop.WiredApart steps) :
    Tallied (shop.run steps) (shop.originsFrom known steps)
      (done ++ shop.kinCallsFrom known steps) := by
  induction steps generalizing shop known done with
  | nil =>
      rw [kinCallsFrom, List.append_nil]
      exact htallied
  | cons s rest ih =>
      rw [kinCallsFrom, ← List.append_assoc]
      exact ih (htallied.step hwired.1) hwired.2

end

end Workshop

end Eventually
