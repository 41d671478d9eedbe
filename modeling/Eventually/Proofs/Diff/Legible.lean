import Eventually.Proofs.Diff.Report
import Mathlib.Data.Set.Function

namespace Eventually

namespace Diff

-- One place lies truly behind another.
def Position.Behind (front position : Position) : Prop :=
  front <+: position ∧ front.length < position.length

namespace Reading

theorem length_finish (r : Reading) : r.finish.length = r.done.length + r.current.toList.length :=
  List.length_append

-- A step that is complete stays so, and one that is open is never given up.
theorem next_behind {front : Position} {r : Reading} (hdone : front <+: r.done)
    (hmore : front.length < r.finish.length) (c : Char) :
    front <+: (r.next c).done ∧ front.length < (r.next c).finish.length := by
  have hfinish : front <+: r.finish := hdone.trans (List.prefix_append ..)
  have hopen (step : Step) : front.length < (finish ⟨r.done, some step⟩).length := by
    rw [length_finish]
    exact Nat.lt_succ_of_le hdone.length_le
  have hclose (step? : Option Step) : front.length < (finish ⟨r.finish, step?⟩).length := by
    rw [length_finish]
    exact Nat.lt_add_right _ hmore
  unfold next
  split
  · exact ⟨hfinish, hclose _⟩
  · split
    · exact ⟨hfinish, hclose _⟩
    · split
      · split
        · exact ⟨hfinish, hclose _⟩
        · exact ⟨hdone, hopen _⟩
      · exact ⟨hdone, hopen _⟩
      · exact ⟨hdone, hopen _⟩

theorem foldl_next_behind {front : Position} (letters : List Char) {r : Reading}
    (hdone : front <+: r.done) (hmore : front.length < r.finish.length) :
    front.Behind (letters.foldl next r).finish := by
  induction letters generalizing r with
  | nil => exact ⟨hdone.trans (List.prefix_append ..), hmore⟩
  | cons c rest ih =>
      obtain ⟨hdone, hmore⟩ := next_behind hdone hmore c
      exact ih hdone hmore

end Reading

namespace Position

-- Whatever letters a key has, its path reads as some place behind the one it belongs to.
theorem ofPath_behind (path key : String) : (ofPath path).Behind (ofPath (path ++ "." ++ key)) := by
  have hpoint : ".".toList.foldl Reading.next (.ofText path) = ⟨ofPath path, some (.key "")⟩ := rfl
  have hread : ofPath (path ++ "." ++ key) =
      (key.toList.foldl Reading.next ⟨ofPath path, some (.key "")⟩).finish := by
    rw [ofPath, Reading.ofText_append, Reading.ofText_append, hpoint]
  rw [hread]
  refine Reading.foldl_next_behind key.toList (List.prefix_refl _) ?_
  rw [Reading.length_finish]
  exact Nat.lt_succ_self _

-- Places of plain steps that lead to none of the maps or to the whole of one, and the keys in the
-- maps, of whatever letters.
inductive Legible (maps : List Position) : Position → Prop
  | plain {position : Position} (hplain : ∀ step ∈ position, step.Plain)
      (hwhole : ∀ map ∈ maps, map <+: position → map = position) : Legible maps position
  | key {map : Position} (hmap : map ∈ maps) (key : String) : Legible maps (map ++ [.key key])

-- Maps that lie at plain places below the root, none of them within another.
structure Separate (maps : List Position) : Prop where
  ne_nil : ∀ map ∈ maps, map ≠ []
  plain : ∀ map ∈ maps, ∀ step ∈ map, step.Plain
  apart : ∀ map ∈ maps, ∀ other ∈ maps, map <+: other → map = other

section

variable {maps : List Position} (hmaps : Separate maps)

include hmaps

theorem path_key {map : Position} (hmap : map ∈ maps) (key : String) :
    path (map ++ [.key key]) = map.path ++ "." ++ key := by
  have hpath : map.path ≠ "" := by
    intro hempty
    have hread := ofPath_path (hmaps.plain map hmap)
    rw [hempty] at hread
    exact hmaps.ne_nil map hmap hread.symm
  rw [path, List.foldl_append]
  exact if_neg (mt String.isEmpty_iff.mp hpath)

theorem ofPath_path_key {map : Position} (hmap : map ∈ maps) (key : String) :
    map.Behind (ofPath (path (map ++ [.key key]))) := by
  have hbehind := ofPath_behind map.path key
  rwa [ofPath_path (hmaps.plain map hmap), ← path_key hmaps hmap] at hbehind

theorem path_ne_of_plain {position map : Position} (hplain : ∀ step ∈ position, step.Plain)
    (hwhole : ∀ map ∈ maps, map <+: position → map = position) (hmap : map ∈ maps) (key : String) :
    position.path ≠ path (map ++ [.key key]) := by
  intro hpath
  have hbehind := ofPath_path_key hmaps hmap key
  rw [← hpath, ofPath_path hplain] at hbehind
  exact absurd (congrArg List.length (hwhole map hmap hbehind.1)) (Nat.ne_of_lt hbehind.2)

theorem path_key_injective {map other : Position} {key key' : String} (hmap : map ∈ maps)
    (hother : other ∈ maps) (hpath : path (map ++ [.key key]) = path (other ++ [.key key'])) :
    map ++ [Step.key key] = other ++ [.key key'] := by
  have hbehind := (ofPath_path_key hmaps hmap key).1
  have hbehind' := (ofPath_path_key hmaps hother key').1
  rw [← hpath] at hbehind'
  have hsame : map = other := by
    rcases List.prefix_or_prefix_of_prefix hbehind hbehind' with hle | hle
    · exact hmaps.apart map hmap other hother hle
    · exact (hmaps.apart other hother map hmap hle).symm
  subst hsame
  rw [path_key hmaps hmap, path_key hmaps hmap, String.append_right_inj] at hpath
  rw [hpath]

-- Paths tell legible places apart, although keys of any letters are among them.
theorem path_injOn_legible : Set.InjOn path {position | Legible maps position} := by
  intro first hfirst second hsecond hpath
  cases hfirst with
  | plain hplain hwhole =>
      cases hsecond with
      | plain hplain' hwhole' => rw [← ofPath_path hplain, hpath, ofPath_path hplain']
      | key hmap key => exact absurd hpath (path_ne_of_plain hmaps hplain hwhole hmap key)
  | key hmap key =>
      cases hsecond with
      | plain hplain hwhole =>
          exact absurd hpath.symm (path_ne_of_plain hmaps hplain hwhole hmap key)
      | key hother key' => exact path_key_injective hmaps hmap hother hpath

end

end Position

section

variable {places : Set Position} {actual expected other : Json}

-- Paths that tell the places of both documents apart lead back to the changes.
theorem exists_decode_report (hpaths : Set.InjOn Position.path places) :
    ∃ decode : String → Position, ∀ actual expected : Json, actual.Ordered → expected.Ordered →
      actual.AllPlaces (· ∈ places) → expected.AllPlaces (· ∈ places) →
        (report actual expected).map (Change.map decode) = changes actual expected := by
  refine ⟨Function.invFunOn Position.path places, ?_⟩
  intro actual expected hactual hexpected hplaces hplaces'
  have hread : ∀ c ∈ changes actual expected,
      (c.map Position.path).map (Function.invFunOn Position.path places) = c := by
    intro c hc
    have hplace : c.place ∈ places :=
      (changes_places hactual hexpected c hc).elim (hplaces c.place) (hplaces' c.place)
    rw [Change.map_map]
    exact Change.map_eq_self (hpaths.leftInvOn_invFunOn hplace)
  rw [report, List.map_map]
  exact (List.map_congr_left hread).trans (List.map_id _)

theorem report_places_nodup (hpaths : Set.InjOn Position.path places) (hactual : actual.Ordered)
    (hexpected : expected.Ordered) (hplaces : actual.AllPlaces (· ∈ places))
    (hplaces' : expected.AllPlaces (· ∈ places)) :
    ((report actual expected).map Change.place).Nodup := by
  obtain ⟨decode, hdecode⟩ := exists_decode_report hpaths
  have hread := hdecode actual expected hactual hexpected hplaces hplaces'
  have hchanges : ((report actual expected).map Change.place).map decode =
      (changes actual expected).map Change.place := by
    rw [← hread, List.map_map, List.map_map]
    exact List.map_congr_left fun c _ => (Change.place_map ..).symm
  exact List.Nodup.of_map _ (hchanges ▸ changes_places_nodup hactual hexpected)

theorem canonical_eq_of_report_eq (hpaths : Set.InjOn Position.path places)
    (hactual : actual.Ordered) (hexpected : expected.Ordered) (hother : other.Ordered)
    (hplaces : actual.AllPlaces (· ∈ places)) (hplaces' : expected.AllPlaces (· ∈ places))
    (hplacesOther : other.AllPlaces (· ∈ places))
    (hsame : (report actual expected == report actual other) = true) :
    expected.canonical = other.canonical := by
  obtain ⟨decode, hdecode⟩ := exists_decode_report hpaths
  have hreports := (Change.list_beq_iff ..).mp hsame
  refine changes_injective hactual hexpected hother ?_
  rw [← hdecode actual expected hactual hexpected hplaces hplaces',
    ← hdecode actual other hactual hother hplaces hplacesOther, Change.canonical_map_list,
    Change.canonical_map_list, hreports]

end

end Diff

end Eventually
