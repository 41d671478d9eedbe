import Eventually.Proofs.Assertion.Monotone
import Eventually.Proofs.Requirement.Parts

namespace Eventually

theorem length_unless_le_one (p : Prop) [Decidable p] (message : String) :
    (if p then [] else [message]).length ≤ 1 := by
  split <;> simp

theorem MetadataRequirement.length_entryFailures_le_one (what key expected : String)
    (found : Option String) : (entryFailures what key expected found).length ≤ 1 := by
  cases found with
  | none => exact Nat.le_refl 1
  | some value => exact length_unless_le_one ..

theorem MetadataRequirement.eq_of_wanted {r s : MetadataRequirement} (hplace : r.place = s.place)
    (hwanted : r.wanted = s.wanted) : r = s := by
  cases r <;> cases s <;> simp_all [place, wanted]

variable [Stamps]

-- Metadata with one place as in `m` and all others as in `n`. What is read is written by a
-- requirement, and where nothing is read, everything that could be is taken out.
theorem Metadata.exists_blend (p : Place) (m n : Metadata) :
    ∃ blend : Metadata, blend.read p = m.read p ∧ ∀ q, q ≠ p → blend.read q = n.read q := by
  have hwritten (r : MetadataRequirement) (hwanted : m.read r.place = r.wanted) :
      ∃ blend : Metadata, blend.read r.place = m.read r.place ∧
        ∀ q, q ≠ r.place → blend.read q = n.read q :=
    ⟨r.fix n, by rw [r.read_fix, if_pos rfl, hwanted],
      fun q hq => by rw [r.read_fix, if_neg (Ne.symm hq)]⟩
  cases p with
  | name => exact hwritten (.name m.name) rfl
  | scope =>
      refine ⟨{ n with scope := m.scope }, rfl, fun q hq => ?_⟩
      cases q <;> first | rfl | exact absurd rfl hq
  | labelled key =>
      cases hread : m.labels.get? key with
      | some value => exact hwritten (.labelled key value) hread
      | none => exact hwritten (.unlabelled key) hread
  | annotated key =>
      cases hread : m.annotations.get? key with
      | some value => exact hwritten (.annotated key value) hread
      | none =>
          refine ⟨{ n with annotations := n.annotations.erase key }, ?_, fun q hq => ?_⟩
          · simp [read, LabelMap.get?_erase, hread]
          · cases q with
            | annotated other =>
                have hother : key ≠ other := fun h => hq (h ▸ rfl)
                simp [read, LabelMap.get?_erase, hother]
            | _ => rfl
  | finalizer f =>
      by_cases hmem : f ∈ m.finalizers
      · exact hwritten (.finalizer f) ((MetadataRequirement.find?_eq_some_iff f _).mpr hmem)
      · have hread : m.finalizers.find? (· = f) = none :=
          List.find?_eq_none.mpr fun g hg h => hmem (of_decide_eq_true h ▸ hg)
        refine ⟨{ n with finalizers := n.finalizers.filter (· ≠ f) }, ?_, fun q hq => ?_⟩
        · simp [read, hread]
        · cases q with
          | finalizer other =>
              have hother : other ≠ f := fun h => hq (h ▸ rfl)
              simp only [read, List.find?_filter]
              refine congrArg (List.find? · n.finalizers) (funext fun g => ?_)
              by_cases hg : g = other <;> simp [hg, hother]
          | _ => rfl

namespace MetadataRequirement

theorem check_eq_of_read (r : MetadataRequirement) (m n : Metadata)
    (hread : m.read r.place = n.read r.place) : r.leaf.check m = r.leaf.check n := by
  refine congrArg (List.map Report.failure) ?_
  cases r with
  | name =>
      have hname : m.name = n.name := Option.some.inj hread
      simp only [failures, hname]
  | scope =>
      have hscope : m.scope = n.scope := hread
      simp only [failures, hscope]
  | labelled key =>
      have hlabel : m.labels.get? key = n.labels.get? key := hread
      simp only [failures, hlabel]
  | unlabelled key =>
      have hlabel : m.labels.get? key = n.labels.get? key := hread
      simp only [failures, hlabel]
  | annotated key =>
      have hannotation : m.annotations.get? key = n.annotations.get? key := hread
      simp only [failures, hannotation]
  | finalizer f =>
      have hmem : f ∈ m.finalizers ↔ f ∈ n.finalizers := by
        rw [← find?_eq_some_iff, ← find?_eq_some_iff]
        exact iff_of_eq (congrArg (· = some f) hread)
      simp only [failures, hmem]

theorem placed : Leaf.Placed leaf place fun p m n => m.read p = n.read p :=
  writes.placed check_eq_of_read Metadata.exists_blend

theorem length_failures_le_one (r : MetadataRequirement) (m : Metadata) :
    (r.failures m).length ≤ 1 := by
  cases r with
  | name => exact length_unless_le_one ..
  | scope =>
      simp only [failures]
      cases m.scope with
      | none => exact Nat.le_refl 1
      | some actual => exact length_unless_le_one ..
  | labelled => exact length_entryFailures_le_one ..
  | unlabelled key =>
      simp only [failures]
      cases m.labels.get? key with
      | none => exact Nat.zero_le 1
      | some value => exact Nat.le_refl 1
  | annotated => exact length_entryFailures_le_one ..
  | finalizer => exact length_unless_le_one ..

theorem exclusive : Leaf.Exclusive leaf place := by
  refine writes.exclusive (fun r m => ?_) fun _ _ => eq_of_wanted
  rw [Leaf.failureCount_eq_length rfl]
  exact r.length_failures_le_one m

end MetadataRequirement

namespace ConditionRequirement

theorem check_eq_of_find? (r : ConditionRequirement) (cs ds : Conditions)
    (hfind : Condition.find? cs r.type = Condition.find? ds r.type) :
    r.leaf.check cs = r.leaf.check ds := by
  refine congrArg (List.map Report.failure) ?_
  cases r <;> simp only [ConditionRequirement.type] at hfind <;> simp only [failures, hfind]

theorem exists_blend (type : String) (cs ds : Conditions) :
    ∃ blend : Conditions, Condition.find? blend type = Condition.find? cs type ∧
      ∀ other, other ≠ type → Condition.find? blend other = Condition.find? ds other := by
  let others : Conditions := ds.filter fun c => c.type ≠ type
  refine ⟨others ++ (Condition.find? cs type).toList, ?_, fun other hother => ?_⟩
  · have hnone : Condition.find? others type = none := by rw [find?_filter, if_pos rfl]
    rw [Condition.find?, List.find?_append]
    rw [Condition.find?] at hnone
    rw [hnone, Option.none_or]
    cases hfound : Condition.find? cs type with
    | none => rfl
    | some c =>
        have htype := List.find?_some hfound
        simp [htype]
  · have hsame : Condition.find? others other = Condition.find? ds other := by
      rw [find?_filter, if_neg (Ne.symm hother)]
    rw [← hsame]
    simp only [Condition.find?, List.find?_append]
    refine Option.or_eq_left_of_none ?_
    cases hfound : cs.find? fun c => c.type = type with
    | none => rfl
    | some c =>
        have htype : c.type = type := by simpa using List.find?_some hfound
        simp [htype, Ne.symm hother]

theorem placed :
    Leaf.Placed leaf type fun t cs ds => Condition.find? cs t = Condition.find? ds t where
  equivalence _ := ⟨fun _ => rfl, Eq.symm, Eq.trans⟩
  check_eq := check_eq_of_find?
  agree_fix := by
    intro r fix hfix cs ds hfind
    obtain rfl := Option.some.inj hfix
    rw [find?_fix, find?_fix, if_pos rfl, if_pos rfl, hfind]
  agree_elsewhere := by
    intro r fix hfix t ht cs
    obtain rfl := Option.some.inj hfix
    rw [find?_fix, if_neg ht]
  exists_blend := exists_blend

end ConditionRequirement

namespace SpaceRequirement

theorem check_eq_of_read (r : SpaceRequirement) (a b : Space)
    (hread : a.read r.place = b.read r.place) : r.leaf.check a = r.leaf.check b := by
  refine congrArg (List.map Report.failure) ?_
  cases r with
  | tier =>
      have htier : a.tier = b.tier := Option.some.inj hread
      simp only [failures, htier]
  | targetCluster =>
      have hcluster : a.targetCluster = b.targetCluster := hread
      simp only [failures, hcluster]

theorem exists_blend (p : Space.Place) (a b : Space) :
    ∃ c : Space, c.read p = a.read p ∧ ∀ q, q ≠ p → c.read q = b.read q := by
  cases p with
  | tier =>
      refine ⟨{ b with tier := a.tier }, rfl, fun q hq => ?_⟩
      cases q <;> first | rfl | exact absurd rfl hq
  | targetCluster =>
      refine ⟨{ b with targetCluster := a.targetCluster }, rfl, fun q hq => ?_⟩
      cases q <;> first | rfl | exact absurd rfl hq

theorem length_failures_le_one (r : SpaceRequirement) (space : Space) :
    (r.failures space).length ≤ 1 := by
  cases r with
  | tier => exact length_unless_le_one ..
  | targetCluster =>
      simp only [failures]
      cases space.targetCluster with
      | none => exact Nat.le_refl 1
      | some actual => exact length_unless_le_one ..

theorem exclusive : Leaf.Exclusive leaf place := by
  refine writes.exclusive (fun r space => ?_) fun r s hplace hwanted => ?_
  · rw [Leaf.failureCount_eq_length rfl]
    exact r.length_failures_le_one space
  · cases r <;> cases s <;> simp_all [place, wanted]

end SpaceRequirement

namespace UserSignupRequirement

theorem check_eq_of_read (r : UserSignupRequirement) (a b : UserSignup)
    (hread : a.read r.place = b.read r.place) : r.leaf.check a = r.leaf.check b := by
  refine congrArg (List.map Report.failure) ?_
  cases r with
  | username =>
      have hname : a.username = b.username := Sum.inl.inj hread
      simp only [failures, hname]
  | approved =>
      have hflag : a.approved = b.approved := Sum.inr.inj hread
      simp only [failures, hflag]

theorem exists_blend (p : UserSignup.Place) (a b : UserSignup) :
    ∃ c : UserSignup, c.read p = a.read p ∧ ∀ q, q ≠ p → c.read q = b.read q := by
  cases p with
  | username =>
      refine ⟨{ b with username := a.username }, rfl, fun q hq => ?_⟩
      cases q <;> first | rfl | exact absurd rfl hq
  | approved =>
      refine ⟨{ b with approved := a.approved }, rfl, fun q hq => ?_⟩
      cases q <;> first | rfl | exact absurd rfl hq

theorem exclusive : Leaf.Exclusive leaf place := by
  refine writes.exclusive (fun r signup => ?_) fun r s hplace hwanted => ?_
  · rw [Leaf.failureCount_eq_length rfl]
    cases r <;> exact length_unless_le_one ..
  · cases r <;> cases s <;> simp_all [place, wanted]

end UserSignupRequirement

end Eventually
