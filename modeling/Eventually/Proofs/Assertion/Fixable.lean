import Eventually.Proofs.Assertion.Leaves

namespace Eventually

def Leaf.Fixable (l : Leaf α) : Prop := l.fixer.isSome

theorem joinFixers_isSome_iff (fixers : List (Option (α → α))) :
    (joinFixers fixers).isSome ↔ ∀ fixer ∈ fixers, fixer.isSome := by
  rw [joinFixers]
  split
  next hall => simpa using hall
  next hall => simpa using hall

theorem Lens.fixer?_isSome_iff (lens : Lens α β) (inner : Option (β → β)) :
    (lens.fixer? inner).isSome ↔ lens.access?.isSome ∧ inner.isSome := by
  cases haccess : lens.access? <;> cases inner <;> simp [fixer?, haccess]

mutual

-- What offers a fixer has one for each of its leaves.
theorem Assertion.fixable_of_fixer? : ∀ {a : Assertion α}, a.fixer?.isSome →
    ∀ l ∈ a.leaves, l.Fixable
  | .leaf l, hfixer => List.forall_mem_singleton.mpr hfixer
  | .all members, hfixer =>
      Checklist.fixable_of_fixers ((joinFixers_isSome_iff members.fixers).mp hfixer)
  | .shared inner, hfixer => by
      have hleaves : ∀ l ∈ inner.leaves, l.Fixable := Assertion.fixable_of_fixer? hfixer
      exact hleaves
  | .lift lens inner, hfixer => by
      obtain ⟨haccess, hinner⟩ := (lens.fixer?_isSome_iff inner.fixer?).mp hfixer
      intro l hl
      obtain ⟨m, hm, rfl⟩ := List.mem_map.mp hl
      exact (lens.fixer?_isSome_iff m.fixer).mpr ⟨haccess, Assertion.fixable_of_fixer? hinner m hm⟩

theorem Assertion.fixable_of_fixers : ∀ {a : Assertion α}, (∀ fixer ∈ a.fixers, fixer.isSome) →
    ∀ l ∈ a.leaves, l.Fixable
  | .leaf l, hfixers => List.forall_mem_singleton.mpr (hfixers _ (List.mem_singleton_self _))
  | .all members, hfixers => Checklist.fixable_of_fixers hfixers
  | .shared inner, hfixers => by
      have hleaves : ∀ l ∈ inner.leaves, l.Fixable := Assertion.fixable_of_fixers hfixers
      exact hleaves
  | .lift lens inner, hfixers =>
      Assertion.fixable_of_fixer? (hfixers _ (List.mem_singleton_self _))

theorem Checklist.fixable_of_fixers : ∀ {list : Checklist α},
    (∀ fixer ∈ list.fixers, fixer.isSome) → ∀ l ∈ list.leaves, l.Fixable
  | .nil, _ => List.forall_mem_nil _
  | .cons head rest, hfixers => by
      obtain ⟨hhead, hrest⟩ := List.forall_mem_append.mp hfixers
      exact List.forall_mem_append.mpr
        ⟨Assertion.fixable_of_fixers hhead, Checklist.fixable_of_fixers hrest⟩

end

namespace Checklist

def EachFixable (list : Checklist α) : Prop := ∀ a ∈ list.toList, a.fixer?.isSome

instance (list : Checklist α) : Decidable list.EachFixable :=
  inferInstanceAs (Decidable (∀ a ∈ list.toList, a.fixer?.isSome))

theorem EachFixable.fixable {list : Checklist α} (hlist : list.EachFixable) :
    ∀ l ∈ list.leaves, l.Fixable := by
  intro l hl
  obtain ⟨a, ha, hla⟩ := (list.mem_leaves_iff l).mp hl
  exact Assertion.fixable_of_fixer? (hlist a ha) l hla

end Checklist

end Eventually
