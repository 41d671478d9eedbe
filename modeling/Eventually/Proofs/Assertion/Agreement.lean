import Eventually.Assertion.Identity
import Eventually.Proofs.Assertion.Leaves
import Eventually.Proofs.Assertion.Nesting
import Eventually.Requirement.Metadata
import Eventually.Requirement.Part
import Eventually.Resource.Standard
import Mathlib.Data.List.Induction
import Mathlib.Data.List.Nodup

namespace Eventually

-- There are values, and all of them are this one.
def Unanimous (values : List String) (value : String) : Prop :=
  value ∈ values ∧ ∀ v ∈ values, v = value

def Disagree (values : List String) : Prop := ∃ v ∈ values, ∃ w ∈ values, v ≠ w

-- Each of the values once, those that come up earlier in front.
structure FirstOccurrences (values distinct : List String) : Prop where
  mem_iff : ∀ v, v ∈ distinct ↔ v ∈ values
  nodup : distinct.Nodup
  inOrder : distinct.Pairwise fun v w => values.idxOf v < values.idxOf w

theorem FirstOccurrences.unique {values first second : List String}
    (hfirst : FirstOccurrences values first) (hsecond : FirstOccurrences values second) :
    first = second := by
  have hperm : first.Perm second :=
    (List.perm_ext_iff_of_nodup hfirst.nodup hsecond.nodup).mpr fun v =>
      (hfirst.mem_iff v).trans (hsecond.mem_iff v).symm
  apply hperm.eq_of_pairwise _ hfirst.inOrder hsecond.inOrder
  intro v w _ _ hvw hwv
  omega

-- The next value is either known, and makes no difference, or comes up last.
theorem firstOccurrences_eraseDups (values : List String) :
    FirstOccurrences values values.eraseDups := by
  induction values using List.reverseRecOn with
  | nil => exact ⟨fun _ => Iff.rfl, List.nodup_nil, List.Pairwise.nil⟩
  | append_singleton values v ih =>
      have hearlier : ∀ w ∈ values, (values ++ [v]).idxOf w = values.idxOf w :=
        fun w hw => List.idxOf_append_of_mem hw
      have hkept : values.eraseDups.Pairwise fun u w =>
          (values ++ [v]).idxOf u < (values ++ [v]).idxOf w := by
        refine ih.inOrder.imp_of_mem fun {u w} hu hw huw => ?_
        rwa [hearlier u ((ih.mem_iff u).mp hu), hearlier w ((ih.mem_iff w).mp hw)]
      rw [List.eraseDups_append]
      by_cases hv : v ∈ values
      · have hnone : ([v].removeAll values).eraseDups = [] := by
          simp [List.removeAll, hv]
        rw [hnone, List.append_nil]
        refine ⟨fun w => ?_, ih.nodup, hkept⟩
        rw [ih.mem_iff, List.mem_append, List.mem_singleton]
        exact ⟨.inl, fun hw => hw.elim id fun hw => hw ▸ hv⟩
      · have hone : ([v].removeAll values).eraseDups = [v] := by
          simp [List.removeAll, hv, List.eraseDups_cons]
        rw [hone]
        constructor
        · intro w
          rw [List.mem_append, List.mem_append, ih.mem_iff]
        · have hnew : v ∉ values.eraseDups := fun hmem => hv ((ih.mem_iff v).mp hmem)
          exact List.nodup_append.mpr ⟨ih.nodup, List.nodup_singleton v, by
            intro w hw u hu
            obtain rfl := List.mem_singleton.mp hu
            exact fun heq => hnew (heq ▸ hw)⟩
        · refine List.pairwise_append.mpr ⟨hkept, List.pairwise_singleton .., ?_⟩
          intro w hw u hu
          obtain rfl := List.mem_singleton.mp hu
          have hmem : w ∈ values := (ih.mem_iff w).mp hw
          rw [hearlier w hmem, List.idxOf_append_of_notMem hv]
          have hlt := List.idxOf_lt_length_of_mem hmem
          omega

section

variable (values : List String)

theorem distinct_eq_nil_iff : values.eraseDups = [] ↔ values = [] := by
  have hmem := (firstOccurrences_eraseDups values).mem_iff
  constructor
  · intro hnil
    refine List.eq_nil_iff_forall_not_mem.mpr fun v hv => ?_
    have hdistinct := (hmem v).mpr hv
    rw [hnil] at hdistinct
    cases hdistinct
  · rintro rfl
    rfl

theorem distinct_eq_singleton_iff (value : String) :
    values.eraseDups = [value] ↔ Unanimous values value := by
  have hdistinct := firstOccurrences_eraseDups values
  constructor
  · intro hone
    rw [hone] at hdistinct
    refine ⟨(hdistinct.mem_iff value).mp (List.mem_singleton_self value), fun v hv => ?_⟩
    exact List.mem_singleton.mp ((hdistinct.mem_iff v).mpr hv)
  · rintro ⟨hvalue, hall⟩
    apply hdistinct.unique
    constructor
    · intro v
      rw [List.mem_singleton]
      exact ⟨fun hv => hv ▸ hvalue, hall v⟩
    · exact List.nodup_singleton value
    · exact List.pairwise_singleton ..

theorem distinct_several_iff (distinct : List String) :
    (values.eraseDups = distinct ∧ ∃ v w rest, distinct = v :: w :: rest) ↔
      Disagree values ∧ FirstOccurrences values distinct := by
  constructor
  · rintro ⟨heq, v, w, rest, rfl⟩
    have hdistinct := firstOccurrences_eraseDups values
    rw [heq] at hdistinct
    have hne : v ≠ w := by
      rintro rfl
      simpa using hdistinct.nodup
    have hv := (hdistinct.mem_iff v).mp (by simp)
    have hw := (hdistinct.mem_iff w).mp (by simp)
    exact ⟨⟨v, hv, w, hw, hne⟩, hdistinct⟩
  · rintro ⟨⟨v, hv, w, hw, hne⟩, hdistinct⟩
    refine ⟨(firstOccurrences_eraseDups values).unique hdistinct, ?_⟩
    have hv' := (hdistinct.mem_iff v).mpr hv
    have hw' := (hdistinct.mem_iff w).mpr hw
    match distinct, hv', hw' with
    | [u], hv', hw' =>
        exact absurd ((List.mem_singleton.mp hv').trans (List.mem_singleton.mp hw').symm) hne
    | first :: second :: rest, _, _ => exact ⟨first, second, rest, rfl⟩

theorem agreed_eq_some_iff (value : String) :
    agreed values = some value ↔ Unanimous values value := by
  cases values with
  | nil => simp [agreed, Unanimous]
  | cons first rest =>
      simp only [agreed, Unanimous, Option.ite_none_right_eq_some, Option.some.injEq]
      constructor
      · rintro ⟨hrest, rfl⟩
        simpa using hrest
      · rintro ⟨_, hall⟩
        obtain ⟨rfl, hrest⟩ := List.forall_mem_cons.mp hall
        simpa using hrest

end

namespace Checklist

-- The names and the namespaces that the leaves of a list carry, in the order of their declaration.
def statedNames (list : Checklist α) : List String := list.leaves.filterMap Leaf.name

def statedScopes (list : Checklist α) : List String := list.leaves.filterMap Leaf.scope

theorem names_eq_stated (list : Checklist α) : list.names = list.statedNames :=
  congrArg Markers.names list.markers_eq

theorem scopes_eq_stated (list : Checklist α) : list.scopes = list.statedScopes :=
  congrArg Markers.scopes list.markers_eq

end Checklist

-- The namespace that is hinted at by namespaces.
inductive Hinted (scopes : List String) : Except IdentityError (Option String) → Prop
  | ambiguous (hscopes : Disagree scopes) (hdistinct : FirstOccurrences scopes distinct) :
      Hinted scopes (.error (.ambiguousScope distinct))
  | absent (hscopes : scopes = []) : Hinted scopes (.ok none)
  | agreed (hscope : Unanimous scopes scope) : Hinted scopes (.ok (some scope))

-- The key that is told by names and namespaces. The namespaces have a say once the name is settled.
inductive Resolved (names scopes : List String) : Except IdentityError Key → Prop
  | ambiguousName (hnames : Disagree names) (hdistinct : FirstOccurrences names distinct) :
      Resolved names scopes (.error (.ambiguousName distinct))
  | missingName (hnames : names = []) : Resolved names scopes (.error .missingName)
  | ambiguousScope (hname : Unanimous names name) (hscopes : Disagree scopes)
      (hdistinct : FirstOccurrences scopes distinct) :
      Resolved names scopes (.error (.ambiguousScope distinct))
  | missingScope (hname : Unanimous names name) (hscopes : scopes = []) :
      Resolved names scopes (.error .missingScope)
  | agreed (hname : Unanimous names name) (hscope : Unanimous scopes scope) :
      Resolved names scopes (.ok (.inScope scope name))

theorem agreement_cases (values : List String) :
    values = [] ∨ (∃ value, Unanimous values value) ∨
      Disagree values ∧ FirstOccurrences values values.eraseDups := by
  rcases hdistinct : values.eraseDups with _ | ⟨v, _ | ⟨w, rest⟩⟩
  · exact .inl ((distinct_eq_nil_iff values).mp hdistinct)
  · exact .inr (.inl ⟨v, (distinct_eq_singleton_iff values v).mp hdistinct⟩)
  · exact .inr (.inr ((distinct_several_iff values _).mp ⟨hdistinct, v, w, rest, rfl⟩))

namespace Checklist

theorem scopeHint_of_hinted (list : Checklist α) {result : Except IdentityError (Option String)}
    (hhinted : Hinted list.statedScopes result) : list.scopeHint = result := by
  rw [scopeHint, scopes_eq_stated]
  cases hhinted with
  | ambiguous hscopes hdistinct =>
      obtain ⟨heq, v, w, rest, rfl⟩ := (distinct_several_iff _ _).mpr ⟨hscopes, hdistinct⟩
      rw [heq]
  | absent hscopes => rw [(distinct_eq_nil_iff _).mpr hscopes]
  | agreed hscope => rw [(distinct_eq_singleton_iff _ _).mpr hscope]

theorem hinted_scopeHint (list : Checklist α) : Hinted list.statedScopes list.scopeHint := by
  have hexists : ∃ result, Hinted list.statedScopes result := by
    obtain hnil | ⟨scope, hscope⟩ | ⟨hsplit, hdistinct⟩ := agreement_cases list.statedScopes
    · exact ⟨_, .absent hnil⟩
    · exact ⟨_, .agreed hscope⟩
    · exact ⟨_, .ambiguous hsplit hdistinct⟩
  obtain ⟨result, hresult⟩ := hexists
  exact list.scopeHint_of_hinted hresult ▸ hresult

theorem scopeHint_eq_iff (list : Checklist α) (result : Except IdentityError (Option String)) :
    list.scopeHint = result ↔ Hinted list.statedScopes result :=
  ⟨fun heq => heq ▸ list.hinted_scopeHint, list.scopeHint_of_hinted⟩

theorem key_of_resolved (list : Checklist α) {result : Except IdentityError Key}
    (hresolved : Resolved list.statedNames list.statedScopes result) : list.key = result := by
  rw [key, names_eq_stated]
  cases hresolved with
  | ambiguousName hnames hdistinct =>
      obtain ⟨heq, v, w, rest, rfl⟩ := (distinct_several_iff _ _).mpr ⟨hnames, hdistinct⟩
      rw [heq]
  | missingName hnames => rw [(distinct_eq_nil_iff _).mpr hnames]
  | ambiguousScope hname hscopes hdistinct =>
      rw [(distinct_eq_singleton_iff _ _).mpr hname,
        list.scopeHint_of_hinted (.ambiguous hscopes hdistinct)]
  | missingScope hname hscopes =>
      rw [(distinct_eq_singleton_iff _ _).mpr hname, list.scopeHint_of_hinted (.absent hscopes)]
  | agreed hname hscope =>
      rw [(distinct_eq_singleton_iff _ _).mpr hname, list.scopeHint_of_hinted (.agreed hscope)]

theorem resolved_key (list : Checklist α) :
    Resolved list.statedNames list.statedScopes list.key := by
  have hexists : ∃ result, Resolved list.statedNames list.statedScopes result := by
    obtain hnil | ⟨name, hname⟩ | ⟨hsplit, hdistinct⟩ := agreement_cases list.statedNames
    · exact ⟨_, .missingName hnil⟩
    · obtain hnil | ⟨scope, hscope⟩ | ⟨hsplit, hdistinct⟩ := agreement_cases list.statedScopes
      · exact ⟨_, .missingScope hname hnil⟩
      · exact ⟨_, .agreed hname hscope⟩
      · exact ⟨_, .ambiguousScope hname hsplit hdistinct⟩
    · exact ⟨_, .ambiguousName hsplit hdistinct⟩
  obtain ⟨result, hresult⟩ := hexists
  exact list.key_of_resolved hresult ▸ hresult

theorem key_eq_iff (list : Checklist α) (result : Except IdentityError Key) :
    list.key = result ↔ Resolved list.statedNames list.statedScopes result :=
  ⟨fun heq => heq ▸ list.resolved_key, list.key_of_resolved⟩

theorem key_eq_ok_iff (list : Checklist α) (scope name : String) :
    list.key = .ok (.inScope scope name) ↔
      Unanimous list.statedNames name ∧ Unanimous list.statedScopes scope := by
  rw [key_eq_iff]
  constructor
  · rintro ⟨⟩
    exact ⟨‹_›, ‹_›⟩
  · rintro ⟨hname, hscope⟩
    exact .agreed hname hscope

-- A checklist stands for the one name and the one namespace that make up its key.
theorem key_eq_ok_iff_markers (list : Checklist α) (scope name : String) :
    list.key = .ok (.inScope scope name) ↔
      (Assertion.all list).name? = some name ∧ (Assertion.all list).scope? = some scope := by
  rw [key_eq_ok_iff, Assertion.name?, Assertion.scope?, agreed_eq_some_iff, agreed_eq_some_iff,
    names_eq_stated, scopes_eq_stated]

end Checklist

namespace Markers

-- The same markers up to their order and their number.
structure Same (first second : Markers) : Prop where
  names_iff : ∀ name, name ∈ first.names ↔ name ∈ second.names
  scopes_iff : ∀ scope, scope ∈ first.scopes ↔ scope ∈ second.scopes

theorem Same.refl (markers : Markers) : markers.Same markers := ⟨fun _ => Iff.rfl, fun _ => Iff.rfl⟩

theorem Same.symm {first second : Markers} (hsame : first.Same second) : second.Same first :=
  ⟨fun name => (hsame.names_iff name).symm, fun scope => (hsame.scopes_iff scope).symm⟩

theorem Same.trans {first second third : Markers} (hleft : first.Same second)
    (hright : second.Same third) : first.Same third :=
  ⟨fun name => (hleft.names_iff name).trans (hright.names_iff name),
    fun scope => (hleft.scopes_iff scope).trans (hright.scopes_iff scope)⟩

theorem Same.append {first second third fourth : Markers} (hleft : first.Same second)
    (hright : third.Same fourth) : (first.append third).Same (second.append fourth) where
  names_iff name := by
    simp only [Markers.append, List.mem_append, hleft.names_iff, hright.names_iff]
  scopes_iff scope := by
    simp only [Markers.append, List.mem_append, hleft.scopes_iff, hright.scopes_iff]

end Markers

mutual

-- Assertions in which members of lists have been put in another order, repeated, gathered in a list
-- of their own or taken out of one, and handles been added, any number of times and at any depth.
inductive Assertion.Rearranged : {α : Type} → Assertion α → Assertion α → Prop
  | same (a : Assertion α) : Assertion.Rearranged a a
  | handed (a : Assertion α) : Assertion.Rearranged a (.shared a)
  | all (hmembers : Checklist.Rearranged members others) :
      Assertion.Rearranged (.all members) (.all others)
  | shared {inner other : Assertion α} (hinner : Assertion.Rearranged inner other) :
      Assertion.Rearranged (.shared inner) (.shared other)
  | lift (lens : Lens α β) {inner other : Assertion β} (hinner : Assertion.Rearranged inner other) :
      Assertion.Rearranged (.lift lens inner) (.lift lens other)

inductive Checklist.Rearranged : {α : Type} → Checklist α → Checklist α → Prop
  | nil : Checklist.Rearranged (α := α) .nil .nil
  | cons (hhead : Assertion.Rearranged head other) (hrest : Checklist.Rearranged rest others) :
      Checklist.Rearranged (.cons head rest) (.cons other others)
  | swapped (first second : Assertion α) (rest : Checklist α) :
      Checklist.Rearranged (.cons first (.cons second rest)) (.cons second (.cons first rest))
  | repeated (head : Assertion α) (rest : Checklist α) :
      Checklist.Rearranged (.cons head rest) (.cons head (.cons head rest))
  | grouped (members rest : Checklist α) :
      Checklist.Rearranged (members.append rest) (.cons (.all members) rest)
  | symm (hback : Checklist.Rearranged list other) : Checklist.Rearranged other list
  | trans (hfirst : Checklist.Rearranged list other) (hsecond : Checklist.Rearranged other third) :
      Checklist.Rearranged list third

end

mutual

theorem Assertion.Rearranged.markers_same : ∀ {α : Type} {a b : Assertion α}, a.Rearranged b →
    a.markers.Same b.markers
  | _, _, _, .same a => .refl a.markers
  | _, _, _, .handed a => .refl a.markers
  | _, _, _, .all hmembers => by
      simpa only [Assertion.markers] using Checklist.Rearranged.markers_same hmembers
  | _, _, _, .shared hinner => by
      simpa only [Assertion.markers] using Assertion.Rearranged.markers_same hinner
  | _, _, _, .lift lens hinner => by
      simpa only [Assertion.markers, Markers.exposed_eq] using
        Assertion.Rearranged.markers_same hinner

theorem Checklist.Rearranged.markers_same : ∀ {α : Type} {list other : Checklist α},
    list.Rearranged other → list.markers.Same other.markers
  | _, _, _, .nil => .refl _
  | _, _, _, .cons hhead hrest => by
      simp only [Checklist.markers]
      exact (Assertion.Rearranged.markers_same hhead).append
        (Checklist.Rearranged.markers_same hrest)
  | _, _, _, .swapped first second rest => by
      constructor <;> intro value <;>
        simp only [Checklist.markers, Markers.append, List.mem_append, or_left_comm]
  | _, _, _, .repeated head rest => by
      constructor <;> intro value <;>
        simp only [Checklist.markers, Markers.append, List.mem_append, or_self_left]
  | _, _, _, .grouped members rest => by
      rw [Checklist.markers_seesThrough.append_eq members rest]
      exact .refl _
  | _, _, _, .symm hback => (Checklist.Rearranged.markers_same hback).symm
  | _, _, _, .trans hfirst hsecond =>
      (Checklist.Rearranged.markers_same hfirst).trans (Checklist.Rearranged.markers_same hsecond)

end

theorem Unanimous.of_mem_iff {values others : List String} {value : String}
    (hone : Unanimous values value) (hmem : ∀ v, v ∈ values ↔ v ∈ others) :
    Unanimous others value :=
  ⟨(hmem value).mp hone.1, fun v hv => hone.2 v ((hmem v).mpr hv)⟩

namespace Checklist

theorem Rearranged.key_eq_ok {list other : Checklist α} (hrearranged : list.Rearranged other)
    {key : Key} (hkey : list.key = .ok key) : other.key = .ok key := by
  have hsame := hrearranged.markers_same
  rw [key_eq_iff] at hkey ⊢
  cases hkey with
  | agreed hname hscope =>
      apply Resolved.agreed
      · rw [← names_eq_stated] at hname ⊢
        exact hname.of_mem_iff hsame.names_iff
      · rw [← scopes_eq_stated] at hscope ⊢
        exact hscope.of_mem_iff hsame.scopes_iff

-- Which key a list has, or why it has none, is told by the values that its leaves carry, and by no
-- more than which values these are if it has one.
theorem key_by_agreement (list : Checklist α) :
    (∀ result, list.key = result ↔ Resolved list.statedNames list.statedScopes result) ∧
      (∀ result, list.scopeHint = result ↔ Hinted list.statedScopes result) ∧
      (∀ scope name, list.key = .ok (.inScope scope name) ↔
        (Assertion.all list).name? = some name ∧ (Assertion.all list).scope? = some scope) ∧
      ∀ other, list.Rearranged other → ∀ key, list.key = .ok key ↔ other.key = .ok key := by
  refine ⟨list.key_eq_iff, list.scopeHint_eq_iff, list.key_eq_ok_iff_markers, ?_⟩
  intro other hrearranged key
  exact ⟨hrearranged.key_eq_ok, hrearranged.symm.key_eq_ok⟩

def registered (name : String) : Assertion Metadata := .leaf (MetadataRequirement.name name).leaf

def unplaced : Assertion Metadata := .leaf (MetadataRequirement.scope "").leaf

-- A name that is stated twice and an empty namespace, and the same taken apart and put together in
-- another way, with a handle more. In the third list the name is in dispute.
def gathered : Checklist Space :=
  .ofList [.onMetadata (.all (.ofList [registered "john", unplaced])),
    .onMetadata (registered "john")]

def regathered : Checklist Space :=
  .ofList [.shared (.onMetadata (registered "john")),
    .all (.ofList [.onMetadata (.all (.ofList [unplaced, registered "john"]))])]

def disputed : Checklist Space :=
  .ofList [.onMetadata (.all (.ofList [registered "jane", unplaced, registered "john"])),
    .onMetadata (registered "jane")]

theorem gathered_rearranged : gathered.Rearranged regathered := by
  have hinside : (ofList [registered "john", unplaced]).Rearranged
      (ofList [unplaced, registered "john"]) := .swapped _ _ .nil
  have hlifted := Assertion.Rearranged.lift (Lens.metadata Space) (.all hinside)
  have hjohn := Assertion.Rearranged.handed (.onMetadata (α := Space) (registered "john"))
  have hmoved := (Rearranged.cons hlifted (.cons hjohn .nil)).trans (.swapped _ _ .nil)
  have hgrouped := Rearranged.grouped (α := Space)
    (.ofList [.onMetadata (.all (.ofList [unplaced, registered "john"]))]) .nil
  exact hmoved.trans (.cons (.same _) hgrouped)

theorem key_by_agreement_of_gathered :
    gathered.Rearranged regathered ∧ regathered.key = .ok (.inScope "" "john") ∧
      Resolved disputed.statedNames disputed.statedScopes
        (.error (.ambiguousName ["jane", "john"])) := by
  have hkey : gathered.key = .ok (.inScope "" "john") := rfl
  have hsame := (key_by_agreement gathered).2.2.2 regathered gathered_rearranged
  have hresolved := (key_by_agreement disputed).1
  exact ⟨gathered_rearranged, (hsame _).mp hkey, (hresolved _).mp rfl⟩

end Checklist

end Eventually
