import Eventually.Proofs.Poll.Lookup
import Eventually.Proofs.Requirement.Keys
import Eventually.Proofs.Requirement.Repair

namespace Eventually

namespace Leaf

-- A leaf that reports failures and logs, but on no object a view error.
def ViewsAll (l : Leaf α) : Prop := ∀ obj, ∀ r ∈ l.check obj, r.viewError? = none

theorem viewsAll_of_failures {l : Leaf α} {failures : α → List String}
    (hcheck : ∀ obj, l.check obj = (failures obj).map .failure) : l.ViewsAll := by
  intro obj r hr
  rw [hcheck] at hr
  obtain ⟨message, _, rfl⟩ := List.mem_map.mp hr
  rfl

theorem ViewsAll.through {l : Leaf β} (hviews : l.ViewsAll) {lens : Lens α β}
    (hget : ∀ a, (lens.get? a).isSome) : (l.through lens).ViewsAll := by
  intro obj r hr
  obtain ⟨part, hpart⟩ := Option.isSome_iff_exists.mp (hget obj)
  simp only [Leaf.through, hpart] at hr
  exact hviews part r hr

end Leaf

namespace Checklist

-- A closure is a leaf without a fixer.
def ClosuresView (list : Checklist α) : Prop := ∀ l ∈ list.leaves, l.fixer = none → l.ViewsAll

theorem Lawful.viewError?_eq_none {list : Checklist α} (hlawful : list.Lawful)
    (hviews : ∀ l ∈ list.leaves, l.ViewsAll) (obj : α) : list.viewError? obj = none := by
  rw [viewError?, hlawful.reports_eq]
  refine List.findSome?_eq_none_iff.mpr fun r hr => ?_
  obtain ⟨l, hl, hr⟩ := List.mem_flatMap.mp hr
  exact hviews l hl obj r hr

end Checklist

section

variable [Stamps]

theorem Leaf.viewsAll_of_mem_domain [WithMetadata α] [WithConditions α] [KindName α]
    {own : ρ → Leaf α} (hown : ∀ r, (own r).ViewsAll) {l : Leaf α} (hl : l ∈ domain own) :
    l.ViewsAll := by
  rcases hl with ⟨r, rfl⟩ | ⟨_, ⟨r, rfl⟩, rfl⟩ | ⟨_, ⟨r, rfl⟩, rfl⟩
  · exact hown r
  · exact (viewsAll_of_failures fun _ => rfl).through fun _ => rfl
  · exact (viewsAll_of_failures fun _ => rfl).through fun _ => rfl

namespace Checklist

-- The assertions of a domain are sound about keys and view every object, so a checklist of them
-- that yields a key pins it down.
theorem pinpoints_of_inDomain [Keyed α] [WithMetadata α] [WithConditions α] [KindName α]
    (hkey : ∀ a : α, Keyed.key a = Keyed.key (WithMetadata.metadata a)) {own : ρ → Leaf α}
    {key : Key} (hseparated : Separated own) (hunmarked : ∀ r, (own r).Unmarked)
    (hown : ∀ r, (own r).ViewsAll) {list : Checklist α} (hlist : list.InDomain .total own)
    (hclosures : list.ClosuresView) (hpinned : list.key = .ok key) : list.Pinpoints key := by
  have hsound : list.KeySound := (hlist.mono fun _ _ hlens => hlens.1).keySound hkey hunmarked
  have hviews : ∀ l ∈ list.leaves, l.ViewsAll := by
    intro l hl
    cases hfixer : l.fixer with
    | none => exact hclosures l hl hfixer
    | some fix =>
        have hfixable : l.Fixable := by rw [Leaf.Fixable, hfixer, Option.isSome_some]
        exact Leaf.viewsAll_of_mem_domain hown (Separated.list_fixable_mem hlist l hl hfixable)
  exact ⟨hsound.key_eq key hpinned, (hseparated.list_lawful hlist).viewError?_eq_none hviews⟩

end Checklist

namespace Watch

-- Whatever assertions of a domain are put together, if they pin down a key: whether the object
-- under that key is asked for or the objects of its namespace are gone through, the wait finds the
-- same object at the same time. Timelines are stores of the kind that this is said of.
theorem lookups_agree :
    (∀ (watch : Watch Space) (key : Key), watch.list.OnSpaces .total → watch.list.ClosuresView →
      watch.Unaided key → watch.LookupsAgree) ∧
    (∀ (watch : Watch UserSignup) (key : Key), watch.list.OnUserSignups .total →
      watch.list.ClosuresView → watch.Unaided key → watch.LookupsAgree) ∧
    ∀ {α : Type} [Keyed α] (timeline : Timeline α),
      Timeline.service.Shows (fun now => (timeline.advance now).shelf) timeline := by
  refine ⟨fun watch key hlist hclosures hwatch => ?_, fun watch key hlist hclosures hwatch => ?_,
    Timeline.shows⟩
  · have hviews : ∀ r, (SpaceRequirement.leaf r).ViewsAll :=
      fun _ => Leaf.viewsAll_of_failures fun _ => rfl
    exact hwatch.lookupsAgree (Checklist.pinpoints_of_inDomain (fun _ => rfl)
      SpaceRequirement.separated (fun _ => ⟨rfl, rfl⟩) hviews hlist hclosures hwatch.key_eq)
  · have hviews : ∀ r, (UserSignupRequirement.leaf r).ViewsAll :=
      fun _ => Leaf.viewsAll_of_failures fun _ => rfl
    exact hwatch.lookupsAgree (Checklist.pinpoints_of_inDomain (fun _ => rfl)
      UserSignupRequirement.separated (fun _ => ⟨rfl, rfl⟩) hviews hlist hclosures hwatch.key_eq)

end Watch

end

namespace Watch

-- Name and namespace are asked for in a nested list, and a closure asks for the name given.
def admitted : Checklist UserSignup :=
  .ofList [.onMetadata (.all (.ofList [.leaf (MetadataRequirement.name "john").leaf,
      .leaf (MetadataRequirement.scope "toolchain").leaf])),
    .leaf (UserSignupRequirement.approved true).leaf,
    .leaf (UserSignup.compliantUsernameLeaf "john")]

def signup (name : String) (approved : Bool) : UserSignup where
  metadata := { name, scope := some "toolchain" }
  username := name
  approved := approved
  compliantUsername := some name

-- One signup is approved from the start, and the other while it is waited for.
def approval : Timeline UserSignup :=
  ⟨.ofObjects [signup "jane" true, signup "john" false],
    [⟨.ofMillis 40, .update (.inScope "toolchain" "john") (signup "john" true)⟩]⟩

theorem lookups_agree_of_approval :
    let watch := { Watch.start admitted with config := ⟨.ofMillis 100, .ofMillis 30⟩ }
    watch.list.OnUserSignups .total ∧ watch.list.ClosuresView ∧
      watch.Unaided (.inScope "toolchain" "john") ∧
      watch.AgreesOn Timeline.service .milliseconds approval ∧
      watch.AgreesOn (Faulty.service .milliseconds .zero Timeline.service) .milliseconds
        ⟨approval, 2⟩ := by
  intro watch
  have hlist : watch.list.OnUserSignups .total := by
    intro a ha
    simp only [watch, Watch.start, admitted, Checklist.ofList, Checklist.toList, List.mem_cons,
      List.not_mem_nil, or_false] at ha
    obtain rfl | rfl | rfl := ha
    · refine .atom (.metadata (.all fun a ha => ?_))
      simp only [Checklist.toList, List.mem_cons, List.not_mem_nil, or_false] at ha
      obtain rfl | rfl := ha
      · exact .atom ⟨_, rfl⟩
      · exact .atom ⟨_, rfl⟩
    · exact .atom (.own _)
    · exact .closure rfl rfl rfl
  have hclosures : watch.list.ClosuresView := by
    intro l hl hfixer
    have hmem : l ∈ [_, _, _, _] := hl
    simp only [List.mem_cons, List.not_mem_nil, or_false] at hmem
    obtain rfl | rfl | rfl | rfl := hmem
    · cases hfixer
    · cases hfixer
    · cases hfixer
    · exact Leaf.viewsAll_of_failures fun _ => rfl
  have hwatch : watch.Unaided (.inScope "toolchain" "john") := ⟨by decide, rfl, rfl, by decide⟩
  have hdistinct (now : Duration) : (approval.advance now).shelf.KeysDistinct := by
    by_cases hdue : (Duration.ofMillis 40).nanos ≤ now.nanos
    · rw [approval.advance_of_due (List.forall_mem_singleton.mpr hdue)]
      decide
    · have hpending : Timeline.isDue now ⟨.ofMillis 40, .update (.inScope "toolchain" "john")
          (signup "john" true)⟩ = false := decide_eq_false hdue
      have hbefore : (approval.advance now).shelf = approval.shelf := by
        simp only [approval, Timeline.advance, List.takeWhile_cons, hpending, Bool.false_eq_true,
          ↓reduceIte, List.foldl_nil]
      rw [hbefore]
      decide
  obtain ⟨hplain, hfaulty⟩ := lookups_agree.2.1 watch _ hlist hclosures hwatch _
    Timeline.service .milliseconds approval _ (lookups_agree.2.2 approval) hdistinct
  exact ⟨hlist, hclosures, hwatch, hplain, hfaulty 2⟩

end Watch

end Eventually
