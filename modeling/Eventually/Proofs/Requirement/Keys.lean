import Eventually.Assertion.Identity
import Eventually.Proofs.Requirement.Domain
import Eventually.Proofs.Requirement.Metadata
import Eventually.Resource.Standard

namespace Eventually

namespace Checklist

theorem eraseDups_of_forall_eq {values : List String} {value : String}
    (hvalues : ∀ v ∈ values, v = value) : values.eraseDups = [] ∨ values.eraseDups = [value] := by
  cases values with
  | nil => exact .inl rfl
  | cons first rest =>
      obtain ⟨rfl, hrest⟩ := List.forall_mem_cons.mp hvalues
      have hnone : rest.filter (fun v => !v == first) = [] := by
        simpa using hrest
      exact .inr (by rw [List.eraseDups_cons, hnone, List.eraseDups_nil])

-- Namespaces that all are the one of some object do not disagree.
theorem scopeHint_of_pinned (list : Checklist α) (scope : Option String)
    (hscopes : ∀ s ∈ list.scopes, scope = some s) :
    list.scopeHint = .ok none ∨ ∃ s, scope = some s ∧ list.scopeHint = .ok (some s) := by
  cases scope with
  | none =>
      have hnil : list.scopes = [] := List.eq_nil_iff_forall_not_mem.mpr fun s hs => by
        cases hscopes s hs
      exact .inl (by simp only [scopeHint, hnil, List.eraseDups_nil])
  | some scope =>
      obtain hnil | hone := eraseDups_of_forall_eq fun s hs => (Option.some.inj (hscopes s hs)).symm
      · exact .inl (by simp only [scopeHint, hnil])
      · exact .inr ⟨scope, rfl, by simp only [scopeHint, hone]⟩

theorem key_of_pinned (list : Checklist α) (key : Key) (hnames : ∀ n ∈ list.names, key.name = n)
    (hscopes : ∀ s ∈ list.scopes, key.scope = some s) :
    list.key = .error .missingName ∨ list.key = .error .missingScope ∨ list.key = .ok key := by
  obtain hnil | hone := eraseDups_of_forall_eq fun n hn => (hnames n hn).symm
  · exact .inl (by simp only [Checklist.key, hnil])
  · obtain hnone | ⟨s, hs, hsome⟩ := list.scopeHint_of_pinned key.scope hscopes
    · exact .inr (.inl (by simp only [Checklist.key, hone, hnone]))
    · obtain ⟨_, name⟩ := key
      obtain rfl := hs
      exact .inr (.inr (by simp only [Checklist.key, hone, hsome, Key.inScope]))

end Checklist

namespace Leaf

-- An object has the name and the namespace that the leaves holding of it are marked with.
def Pins [Keyed α] (l : Leaf α) : Prop :=
  ∀ obj, l.Holds obj → (∀ n ∈ l.name, (Keyed.key obj).name = n) ∧
    ∀ s ∈ l.scope, (Keyed.key obj).scope = some s

def Unmarked (l : Leaf α) : Prop := l.name = none ∧ l.scope = none

theorem Unmarked.pins [Keyed α] {l : Leaf α} (hunmarked : l.Unmarked) : l.Pins := by
  obtain ⟨hname, hscope⟩ := hunmarked
  intro obj _
  rw [hname, hscope]
  exact ⟨nofun, nofun⟩

theorem Pins.through [Keyed α] [Keyed β] {l : Leaf β} (hpins : l.Pins) {lens : Lens α β}
    (hkey : ∀ a part, lens.get? a = some part → Keyed.key part = Keyed.key a) :
    (l.through lens).Pins := by
  intro obj hholds
  obtain ⟨part, hpart, hholds⟩ := (l.through_holds_iff lens obj).mp hholds
  rw [← hkey obj part hpart]
  exact hpins part hholds

end Leaf

namespace Assertion

-- Leaves on conditions have no markers, nor do closures, and no lens brings up new ones.
theorem Built.unmarked {turns : Turns} {leaf : ρ → Leaf α} (hleaf : ∀ r, (leaf r).Unmarked)
    {a : Assertion α} (ha : a.Built turns (IsLeafOf leaf)) : ∀ l ∈ a.leaves, l.Unmarked := by
  refine ha.forall_leaves ?_ (fun l hname hscope _ => ⟨hname, hscope⟩) (fun _ _ _ hl => hl)
  intro a hatom l hl
  obtain ⟨r, rfl⟩ := hatom.mem_range l hl
  exact hleaf r

theorem Built.pins [Keyed α] {turns : Turns} {atom : Assertion α → Prop}
    (hturns : ∀ lens, turns α lens → lens.Identity)
    (hatom : ∀ a, atom a → ∀ l ∈ a.leaves, l.Pins) {a : Assertion α} (ha : a.Built turns atom) :
    ∀ l ∈ a.leaves, l.Pins := by
  refine ha.forall_leaves hatom (fun l hname hscope _ => Leaf.Unmarked.pins ⟨hname, hscope⟩) ?_
  intro lens hlens l hl
  exact hl.through fun a part hpart => by rw [(hturns lens hlens).get?_eq a part hpart]

end Assertion

namespace Checklist

-- The key that assertions pin down is that of every object that passes, and no object passes
-- assertions that disagree about it.
structure KeySound [Keyed α] (list : Checklist α) : Prop where
  key_eq : ∀ key, list.key = .ok key → ∀ obj, list.passes obj → Keyed.key obj = key
  name_unmet : ∀ names, list.key = .error (.ambiguousName names) → ∀ obj, ¬list.passes obj
  scope_unmet : ∀ scopes, list.key = .error (.ambiguousScope scopes) → ∀ obj, ¬list.passes obj
  hint_unmet : ∀ e, list.scopeHint = .error e → ∀ obj, ¬list.passes obj

theorem keySound_of_pins [Keyed α] {list : Checklist α} (hpins : ∀ l ∈ list.leaves, l.Pins) :
    list.KeySound := by
  have hnames : ∀ obj, list.passes obj → ∀ n ∈ list.names, (Keyed.key obj).name = n := by
    intro obj hpasses n hn
    rw [names, list.markers_eq] at hn
    obtain ⟨l, hl, hname⟩ := List.mem_filterMap.mp hn
    exact (hpins l hl obj (list.leaf_holds_of_passes obj hpasses l hl)).1 n hname
  have hscopes : ∀ obj, list.passes obj → ∀ s ∈ list.scopes, (Keyed.key obj).scope = some s := by
    intro obj hpasses s hs
    rw [scopes, list.markers_eq] at hs
    obtain ⟨l, hl, hscope⟩ := List.mem_filterMap.mp hs
    exact (hpins l hl obj (list.leaf_holds_of_passes obj hpasses l hl)).2 s hscope
  have hkey : ∀ obj, list.passes obj → list.key = .error .missingName ∨
      list.key = .error .missingScope ∨ list.key = .ok (Keyed.key obj) :=
    fun obj hpasses => list.key_of_pinned (Keyed.key obj) (hnames obj hpasses) (hscopes obj hpasses)
  constructor
  · intro key hok obj hpasses
    obtain h | h | h := hkey obj hpasses
    · cases hok.symm.trans h
    · cases hok.symm.trans h
    · exact (Except.ok.inj (hok.symm.trans h)).symm
  · intro names herror obj hpasses
    obtain h | h | h := hkey obj hpasses <;> cases herror.symm.trans h
  · intro scopes herror obj hpasses
    obtain h | h | h := hkey obj hpasses <;> cases herror.symm.trans h
  · intro e herror obj hpasses
    obtain h | ⟨s, _, h⟩ := list.scopeHint_of_pinned _ (hscopes obj hpasses) <;>
      cases herror.symm.trans h

end Checklist

section

variable [Stamps]

theorem MetadataRequirement.leaf_pins (r : MetadataRequirement) : r.leaf.Pins := by
  intro m hholds
  have hread := (r.leaf_holds_iff m).mp hholds
  cases r with
  | name n =>
      refine ⟨fun other hother => ?_, nofun⟩
      obtain rfl : n = other := Option.some.inj hother
      exact Option.some.inj hread
  | scope s =>
      refine ⟨nofun, fun other hother => ?_⟩
      obtain rfl : s = other := Option.some.inj hother
      exact hread
  | _ => exact ⟨nofun, nofun⟩

namespace Assertion

theorem InDomain.pins [Keyed α] [WithMetadata α] [WithConditions α] [KindName α]
    (hkey : ∀ a : α, Keyed.key a = Keyed.key (WithMetadata.metadata a)) {own : ρ → Leaf α}
    (hown : ∀ r, (own r).Unmarked) {a : Assertion α} (ha : a.InDomain .identities own) :
    ∀ l ∈ a.leaves, l.Pins := by
  cases ha with
  | own r =>
      intro l hl
      obtain rfl := List.mem_singleton.mp hl
      exact (hown r).pins
  | metadata hinner =>
      intro l hl
      obtain ⟨m, hm, rfl⟩ := List.mem_map.mp hl
      have hleaf : ∀ a : Assertion Metadata, a.IsLeafOf MetadataRequirement.leaf →
          ∀ m ∈ a.leaves, m.Pins := by
        intro a hatom m hm
        obtain ⟨r, rfl⟩ := hatom.mem_range m hm
        exact r.leaf_pins
      have hpins := hinner.pins (fun _ hlens => hlens) hleaf m hm
      apply hpins.through
      intro a part hpart
      obtain rfl : WithMetadata.metadata a = part := Option.some.inj hpart
      exact (hkey a).symm
  | conditions hinner =>
      intro l hl
      obtain ⟨m, hm, rfl⟩ := List.mem_map.mp hl
      exact Leaf.Unmarked.pins (hinner.unmarked (fun r => ⟨rfl, rfl⟩) m hm)

end Assertion

namespace Checklist

theorem InDomain.keySound [Keyed α] [WithMetadata α] [WithConditions α] [KindName α]
    (hkey : ∀ a : α, Keyed.key a = Keyed.key (WithMetadata.metadata a)) {own : ρ → Leaf α}
    (hown : ∀ r, (own r).Unmarked) {list : Checklist α} (hlist : list.InDomain .identities own) :
    list.KeySound := by
  refine keySound_of_pins fun l hl => ?_
  obtain ⟨a, ha, hla⟩ := (list.mem_leaves_iff l).mp hl
  exact (hlist a ha).pins (fun _ hlens => hlens) (fun _ hatom => hatom.pins hkey hown) l hla

-- Whatever assertions of a domain are put together, a key that they yield is never that of
-- another object than they ask for.
theorem domain_keys_sound :
    (∀ list : Checklist Space, list.OnSpaces .identities → list.KeySound) ∧
      ∀ list : Checklist UserSignup, list.OnUserSignups .identities → list.KeySound :=
  ⟨fun _ hlist => hlist.keySound (fun _ => rfl) fun _ => ⟨rfl, rfl⟩,
    fun _ hlist => hlist.keySound (fun _ => rfl) fun _ => ⟨rfl, rfl⟩⟩

end Checklist

end

namespace Checklist

-- A name behind an identity lens, and a namespace beside a label in a nested list.
def named (name : String) : Assertion UserSignup :=
  .lift (Lens.guarded "UserSignup" (fun signup => signup.approved) none)
    (.onMetadata (.leaf (MetadataRequirement.name name).leaf))

def placed : Assertion UserSignup :=
  .onMetadata (.all (.ofList [.leaf (MetadataRequirement.scope "toolchain").leaf,
    .leaf (MetadataRequirement.unlabelled "banned").leaf]))

theorem domain_keys_sound_of_named :
    (∀ signup, (ofList [named "john", placed, named "john"]).passes signup →
      signup.metadata.key = .inScope "toolchain" "john") ∧
      ∀ signup, ¬(ofList [named "john", placed, named "jane"]).passes signup := by
  have hlist : ∀ first second,
      (ofList [named first, placed, named second]).OnUserSignups .identities := by
    intro first second a ha
    simp only [ofList, toList, List.mem_cons, List.not_mem_nil, or_false] at ha
    have hnamed : ∀ name, (named name).Built .identities
        (Assertion.InDomain .identities UserSignupRequirement.leaf) :=
      fun name => .turn (Lens.guarded_identity ..) (.atom (.metadata (.atom ⟨_, rfl⟩)))
    obtain rfl | rfl | rfl := ha
    · exact hnamed first
    · refine .atom (.metadata (.all fun a ha => ?_))
      simp only [ofList, toList, List.mem_cons, List.not_mem_nil, or_false] at ha
      obtain rfl | rfl := ha
      · exact .atom ⟨_, rfl⟩
      · exact .atom ⟨_, rfl⟩
    · exact hnamed second
  have hagree := domain_keys_sound.2 _ (hlist "john" "john")
  have hdisagree := domain_keys_sound.2 _ (hlist "john" "jane")
  exact ⟨hagree.key_eq _ (by decide), hdisagree.name_unmet ["john", "jane"] (by decide)⟩

end Checklist

end Eventually
