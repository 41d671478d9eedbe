import Eventually.Proofs.Store.Uniqueness

namespace Eventually

namespace ShelfCall

variable [Keyed α]

-- What is under a key after a call, by what was last written there.
def leaves (key : Key) (last : Option α) : ShelfCall α → Option α
  | insert obj => if Keyed.key obj = key then some obj else last
  | update changed f => if changed = key then last.map f else last
  | delete deleted => if deleted = key then none else last
  | _ => last

-- The keys in order of insertion. One that is inserted again keeps its place.
def reorders (keys : List Key) : ShelfCall α → List Key
  | insert obj => if Keyed.key obj ∈ keys then keys else keys ++ [Keyed.key obj]
  | delete key => keys.erase key
  | _ => keys

theorem leaves_of_isRead {call : ShelfCall α} (hread : call.isRead) (key : Key) (last : Option α) :
    call.leaves key last = last := by
  cases call with
  | insert _ | update _ _ | delete _ => cases hread
  | _ => rfl

theorem reorders_of_isRead {call : ShelfCall α} (hread : call.isRead) (keys : List Key) :
    call.reorders keys = keys := by
  cases call with
  | insert _ | update _ _ | delete _ => cases hread
  | _ => rfl

def lastWritten (past : List (ShelfCall α)) (key : Key) : Option α := past.foldl (leaves key) none

def standing (past : List (ShelfCall α)) : List Key := past.foldl reorders []

def found (past : List (ShelfCall α)) (key : Key) : Except StoreError α :=
  match lastWritten past key with
  | some obj => .ok obj
  | none => .error (.notFound key)

end ShelfCall

open ShelfCall

namespace Shelf

variable [Keyed α] {shelf : Shelf α} {past : List (ShelfCall α)}

-- What a shelf holds, and how often it was read, by the calls so far.
structure Recounts (shelf : Shelf α) (past : List (ShelfCall α)) : Prop where
  distinct : shelf.KeysDistinct
  keys_eq : shelf.objects.map Keyed.key = standing past
  peek?_eq : ∀ key, shelf.peek? key = lastWritten past key
  calls_eq : shelf.calls = past.countP isServed

-- Together with what its calls do and answer. An object of the whole cluster has no scope, so that
-- no namespace lists it.
structure ActsAsMap (shelf : Shelf α) (past : List (ShelfCall α)) : Prop
    extends shelf.Recounts past where
  get_eq (key : Key) (now : Duration) :
    service.get key now shelf = .atOnce (found past key) shelf.served
  list_within (name : String) (now : Duration) : service.list (some name) now shelf =
    .atOnce (.ok (shelf.objects.filter fun obj => (Keyed.key obj).scope = some name)) shelf.served
  list_all (now : Duration) : service.list none now shelf = .atOnce (.ok shelf.objects) shelf.served
  insert_known : shelf.objects = before ++ old :: after → Keyed.key old = Keyed.key obj →
    shelf.insert obj = { shelf with objects := before ++ obj :: after }
  insert_new : Unused (Keyed.key obj) shelf.objects →
    shelf.insert obj = { shelf with objects := shelf.objects ++ [obj] }
  update_known (f : α → α) : shelf.objects = before ++ obj :: after →
    shelf.update? (Keyed.key obj) f = some { shelf with objects := before ++ f obj :: after }
  update_unknown (f : α → α) : Unused key shelf.objects → shelf.update? key f = none
  take_known : shelf.objects = before ++ obj :: after →
    shelf.take (Keyed.key obj) = (some obj, { shelf with objects := before ++ after })
  take_unknown : Unused key shelf.objects → shelf.take key = (none, shelf)
  length_eq : shelf.length = (standing past).length
  isEmpty_iff : shelf.isEmpty ↔ standing past = []

theorem KeysDistinct.unused_before (hdistinct : shelf.KeysDistinct)
    (hobjects : shelf.objects = before ++ obj :: after) : Unused (Keyed.key obj) before := by
  rw [KeysDistinct, hobjects, keys_nodup_middle] at hdistinct
  exact (List.forall_mem_append.mp hdistinct.1).1

theorem Recounts.actsAsMap (hrecounts : shelf.Recounts past) : shelf.ActsAsMap past := by
  have hbefore {before after : List α} {obj : α}
      (hobjects : shelf.objects = before ++ obj :: after) : Unused (Keyed.key obj) before :=
    hrecounts.distinct.unused_before hobjects
  constructor
  case toRecounts => exact hrecounts
  case get_eq =>
    intro key now
    rw [found, ← hrecounts.peek?_eq]
    rfl
  case list_within =>
    intro name now
    have hlist : service.list (some name) now shelf =
        .atOnce (.ok (shelf.listed (some name))) shelf.served := rfl
    rw [hlist, listed_some]
  case list_all =>
    intro now
    have hlist : service.list none now shelf = .atOnce (.ok (shelf.listed none)) shelf.served := rfl
    rw [hlist, listed_none]
  case insert_known =>
    intro before old after obj hobjects hkey
    have hunused := hbefore hobjects
    rw [hkey] at hunused
    rw [insert, hobjects, changeFirst?_of_first hunused hkey, Option.getD_some]
  case insert_new =>
    intro obj hunused
    rw [insert, changeFirst?_of_unused hunused, Option.getD_none]
  case update_known =>
    intro before obj after f hobjects
    rw [update?, hobjects, changeFirst?_of_first (hbefore hobjects) rfl, Option.map_some]
  case update_unknown =>
    intro key f hunused
    rw [update?, changeFirst?_of_unused hunused, Option.map_none]
  case take_known =>
    intro before obj after hobjects
    have hunused := hbefore hobjects
    rw [take, peek?, delete, hobjects, find?_of_first hunused rfl, eraseP_of_first hunused rfl]
  case take_unknown =>
    intro key hunused
    rw [take, peek?, delete, find?_of_unused hunused, eraseP_of_unused hunused]
  case length_eq => rw [length, ← hrecounts.keys_eq, List.length_map]
  case isEmpty_iff => rw [isEmpty, ← hrecounts.keys_eq, List.isEmpty_iff, List.map_eq_nil_iff]

-- An update does not change the key of the object that it finds.
def KeepsKey (shelf : Shelf α) : ShelfCall α → Prop
  | .update key f => ∀ obj ∈ shelf.peek? key, Keyed.key (f obj) = key
  | _ => True

-- The object that takes another one's place is found under their common key.
theorem find?_middle {before after : List α} {obj old : α} (hkey : Keyed.key obj = Keyed.key old)
    (hunused : Unused (Keyed.key old) before) (key : Key) :
    (before ++ obj :: after).find? (has key) =
      if Keyed.key old = key then some obj else (before ++ old :: after).find? (has key) := by
  split
  next hsame => exact find?_of_first (hsame ▸ hunused) (hkey.trans hsame)
  next hne => rw [find?_middle_of_ne hne, find?_middle_of_ne (hkey ▸ hne)]

theorem KeysDistinct.peek?_step (hdistinct : shelf.KeysDistinct) {call : ShelfCall α}
    (hkeeps : shelf.KeepsKey call) (key : Key) :
    (shelf.step call).peek? key = call.leaves key (shelf.peek? key) := by
  have hedits := edits_step shelf call
  unfold KeysDistinct at hdistinct
  unfold peek?
  generalize (shelf.step call).objects = objects at hedits ⊢
  cases hedits with
  | appended obj hunused =>
      rw [leaves]
      split
      next hkey => exact find?_of_first (hkey ▸ hunused) hkey
      next hne => rw [find?_middle_of_ne hne, List.append_nil]
  | replaced hobjects hkey hunused =>
      rw [leaves, hobjects, find?_middle hkey.symm (hkey ▸ hunused), hkey]
  | updated f hobjects hkey hunused =>
      have hfound := hkeeps _ (by rw [peek?, hobjects]; exact find?_of_first hunused hkey)
      subst hkey
      rw [leaves, hobjects, find?_middle hfound hunused]
      split
      next hsame => rw [find?_of_first (hsame ▸ hunused) hsame, Option.map_some]
      next => rfl
  | notUpdated f hunused =>
      rw [leaves]
      split
      next hsame => rw [← hsame, find?_of_unused hunused, Option.map_none]
      next => rfl
  | deleted hobjects hkey hunused =>
      rw [hobjects, keys_nodup_middle, hkey] at hdistinct
      rw [leaves, hobjects]
      split
      next hsame => exact find?_of_unused (hsame ▸ hdistinct.1)
      next hne => rw [find?_middle_of_ne (hkey ▸ hne)]
  | notDeleted hunused =>
      rw [leaves]
      split
      next hsame => rw [← hsame, find?_of_unused hunused]
      next => rfl
  | read hread => rw [leaves_of_isRead hread]

theorem keys_step {call : ShelfCall α} (hkeeps : shelf.KeepsKey call) :
    (shelf.step call).objects.map Keyed.key = call.reorders (shelf.objects.map Keyed.key) := by
  have hedits := edits_step shelf call
  generalize (shelf.step call).objects = objects at hedits ⊢
  cases hedits with
  | appended obj hunused =>
      rw [reorders, if_neg (unused_iff.mp hunused), List.map_append, List.map_singleton]
  | replaced hobjects hkey hunused =>
      rw [reorders, if_pos (by simp [hobjects, hkey]), hobjects]
      simp only [List.map_append, List.map_cons, hkey]
  | updated f hobjects hkey hunused =>
      have hfound := hkeeps _ (by rw [peek?, hobjects]; exact find?_of_first hunused hkey)
      rw [hobjects]
      simp only [reorders, List.map_append, List.map_cons, hfound, hkey]
  | notUpdated f hunused => rfl
  | deleted hobjects hkey hunused =>
      rw [reorders, hobjects, List.map_append, List.map_append, List.map_cons, hkey,
        List.erase_append_right _ (unused_iff.mp hunused), List.erase_cons_head]
  | notDeleted hunused => rw [reorders, List.erase_of_not_mem (unused_iff.mp hunused)]
  | read hread => rw [reorders_of_isRead hread]

theorem calls_step (shelf : Shelf α) (call : ShelfCall α) :
    (shelf.step call).calls = shelf.calls + [call].countP isServed := by
  cases call with
  | update key f =>
      simp only [step, update, update?]
      cases changeFirst? key f shelf.objects <;> rfl
  | _ => rfl

theorem recounts_empty : ({} : Shelf α).Recounts [] :=
  ⟨List.nodup_nil, rfl, fun _ => rfl, rfl⟩

theorem KeepsKey.not_collides {call : ShelfCall α} (hkeeps : shelf.KeepsKey call) :
    ¬shelf.Collides call := by
  cases call with
  | update key f => exact fun ⟨obj, hobj, hmoved, _⟩ => hmoved (hkeeps obj hobj)
  | _ => exact id

theorem Recounts.step (hrecounts : shelf.Recounts past) {call : ShelfCall α}
    (hkeeps : shelf.KeepsKey call) : (shelf.step call).Recounts (past ++ [call]) := by
  constructor
  case distinct => exact (hrecounts.distinct.step_iff call).mpr hkeeps.not_collides
  case keys_eq =>
    rw [keys_step hkeeps, hrecounts.keys_eq, standing, standing, List.foldl_concat]
  case peek?_eq =>
    intro key
    rw [hrecounts.distinct.peek?_step hkeeps, hrecounts.peek?_eq, lastWritten, lastWritten,
      List.foldl_concat]
  case calls_eq => rw [calls_step, hrecounts.calls_eq, List.countP_append]

theorem Recounts.run_inserts (hrecounts : shelf.Recounts past) (objects : List α) :
    (shelf.run (objects.map .insert)).Recounts (past ++ objects.map .insert) := by
  induction objects generalizing shelf past with
  | nil => simpa [run] using hrecounts
  | cons obj rest ih =>
      have hinserted : (shelf.step (.insert obj)).Recounts (past ++ [.insert obj]) :=
        hrecounts.step trivial
      simpa [run] using ih hinserted

-- A shelf made of objects is one into which they were inserted.
theorem ofObjects_recounts (objects : List α) :
    (ofObjects objects).Recounts (objects.map .insert) := by
  rw [ofObjects_eq]
  exact recounts_empty.run_inserts objects

end Shelf

end Eventually
