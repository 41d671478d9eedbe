import Eventually.Proofs.Diff.Differences

namespace Eventually

theorem Json.beq_comm (a b : Json) : (a == b) = (b == a) := by
  rw [Bool.eq_iff_iff, beq_iff, beq_iff]
  exact eq_comm

theorem Json.AlikeAt.symm {actual expected : Json} {position : Diff.Position}
    (halike : actual.AlikeAt expected position) : expected.AlikeAt actual position := by
  obtain ⟨value, other, hvalue, hother, hkinds⟩ := halike
  exact ⟨other, value, hother, hvalue, hkinds.symm⟩

namespace Change

-- The change as it is seen from the other document.
def mirror : Change ι → Change ι
  | added place value => removed place value
  | removed place value => added place value
  | changed place actual expected => changed place expected actual

theorem mirror_mirror (c : Change ι) : c.mirror.mirror = c := by cases c <;> rfl

theorem mirror_injective : Function.Injective (mirror (ι := ι)) :=
  Function.LeftInverse.injective mirror_mirror

theorem map_mirror (f : ι → κ) (c : Change ι) : (c.map f).mirror = c.mirror.map f := by
  cases c <;> rfl

end Change

namespace Diff

section

variable {actual expected : Json}

-- What makes a difference reads the same from both sides, but for which side has the value.
theorem Difference.mirror {c : Change Position} (hdifference : Difference actual expected c) :
    Difference expected actual c.mirror := by
  cases hdifference with
  | @changed position value other hfronts hvalue hother hends hdiffer =>
      have hfronts' : ∀ front, front <+: position → front ≠ position →
          expected.AlikeAt actual front :=
        fun front hfront hne => (hfronts front hfront hne).symm
      have hdiffer' : (other == value) = false := (Json.beq_comm other value).trans hdiffer
      exact .changed hfronts' hother hvalue (fun halike => hends halike.symm) hdiffer'
  | removed honly => exact .added honly
  | added honly => exact .removed honly

theorem difference_mirror_iff (c : Change Position) :
    Difference expected actual c ↔ Difference actual expected c.mirror := by
  constructor
  · exact Difference.mirror
  · intro hdifference
    have hback := hdifference.mirror
    rwa [Change.mirror_mirror] at hback

-- The two comparisons come to the same differences, but not in the same order: fields that only one
-- document has come last where it is the second one. As no change is listed twice, it is enough to
-- know which changes there are.
theorem changes_perm_mirror (hactual : actual.Ordered) (hexpected : expected.Ordered) :
    (changes expected actual).Perm ((changes actual expected).map Change.mirror) := by
  have hforth := changes_itemizes hactual hexpected
  have hback := changes_itemizes hexpected hactual
  have hnodup : ((changes actual expected).map Change.mirror).Nodup :=
    hforth.places_nodup.of_map.map Change.mirror_injective
  refine (List.perm_ext_iff_of_nodup hback.places_nodup.of_map hnodup).mpr fun c => ?_
  rw [hback.mem_iff, difference_mirror_iff, ← hforth.mem_iff]
  constructor
  · intro hc
    exact List.mem_map.mpr ⟨c.mirror, hc, c.mirror_mirror⟩
  · intro hc
    obtain ⟨d, hd, rfl⟩ := List.mem_map.mp hc
    rwa [Change.mirror_mirror]

end

-- Which of two documents is the actual one decides how each difference is told, and in which order
-- they come, and nothing else. Keys may have any form, also one that makes places read alike.
theorem report_symmetric (actual expected : Json) (hactual : actual.Ordered)
    (hexpected : expected.Ordered) :
    (report expected actual).Perm ((report actual expected).map Change.mirror) ∧
      ∀ c, c ∈ changes expected actual ↔ Difference actual expected c.mirror := by
  constructor
  · have hpaths : (report actual expected).map Change.mirror =
        ((changes actual expected).map Change.mirror).map (Change.map Position.path) := by
      rw [report, List.map_map, List.map_map]
      exact List.map_congr_left fun c _ => c.map_mirror Position.path
    rw [hpaths, report]
    exact (changes_perm_mirror hactual hexpected).map _
  · intro c
    rw [mem_changes_iff hexpected hactual, difference_mirror_iff]

theorem report_symmetric_of_untangled :
    tangled.Ordered ∧ untangled.Ordered ∧
      (report untangled tangled).Perm ((report tangled untangled).map Change.mirror) ∧
      ∀ c, c ∈ changes untangled tangled ↔ Difference tangled untangled c.mirror := by
  have hordered : tangled.Ordered ∧ untangled.Ordered := by
    simp only [tangled, untangled, Json.int, Json.Ordered, Json.OrderedFields, Json.OrderedItems,
      and_true]
    decide
  exact ⟨hordered.1, hordered.2, report_symmetric _ _ hordered.1 hordered.2⟩

-- The empty key comes first in the document that has it, and last in the comparison with it.
example :
    report untangled tangled =
      [.changed "a.b" (.int 2) (.int 1), .added "a.b[1]" (.bool true), .removed "b" (.string "x"),
        .changed "c" (.object []) .null, .added "" (.int 1)] := by
  cbv

end Diff

end Eventually
