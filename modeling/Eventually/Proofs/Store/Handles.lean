import Eventually.Proofs.Store.Catalogue
import Eventually.Resource.Metadata
import Eventually.Resource.Standard

namespace Eventually

-- The shelf that each handle leads to, by the steps alone. Shelves are numbered in the order in
-- which they are stocked.
structure Register where
  homes : List Nat
  stocked : Nat

namespace Register

def empty : Register := ⟨[], 0⟩

def enter (register : Register) : ShelfStep α → Register
  | .stock _ => ⟨register.homes ++ [register.stocked], register.stocked + 1⟩
  | .clone handle => { register with homes := register.homes ++ register.homes[handle]?.toList }
  | .call .. => register

def run (register : Register) (steps : List (ShelfStep α)) : Register := steps.foldl enter register

-- The calls that a step makes on the shelf of a number. Stocking one is inserting into it.
def made (register : Register) (home : Nat) : ShelfStep α → List (ShelfCall α)
  | .stock objects => if register.stocked = home then objects.map .insert else []
  | .clone _ => []
  | .call handle call => if register.homes[handle]? = some home then [call] else []

def madeFrom (register : Register) (home : Nat) : List (ShelfStep α) → List (ShelfCall α)
  | [] => []
  | s :: rest => register.made home s ++ (register.enter s).madeFrom home rest

end Register

-- The calls on one shelf, through whatever handles.
def callsOn (home : Nat) (steps : List (ShelfStep α)) : List (ShelfCall α) :=
  Register.empty.madeFrom home steps

namespace Shelves

variable [Keyed α] {shelves : Shelves α} {register : Register} {past : Nat → List (ShelfCall α)}

-- An update through a handle does not change the key of the object that it finds.
def KeepsKey (shelves : Shelves α) : ShelfStep α → Prop
  | .call handle call => ∀ shelf ∈ shelves.read? handle, shelf.KeepsKey call
  | _ => True

def KeepsKeys (shelves : Shelves α) : List (ShelfStep α) → Prop
  | [] => True
  | s :: rest => shelves.KeepsKey s ∧ (shelves.step s).KeepsKeys rest

-- Most updates keep the keys of all objects.
theorem keepsKeys_of_forall {steps : List (ShelfStep α)}
    (hkeeps : ∀ handle key f, .call handle (.update key f) ∈ steps →
      ∀ obj, Keyed.key obj = key → Keyed.key (f obj) = key)
    (shelves : Shelves α) : shelves.KeepsKeys steps := by
  induction steps generalizing shelves with
  | nil => trivial
  | cons s rest ih =>
      refine ⟨?_, ih (fun handle key f hmem => hkeeps handle key f (List.mem_cons_of_mem _ hmem)) _⟩
      cases s with
      | call handle call =>
          intro shelf _
          cases call with
          | update key f =>
              intro obj hobj
              refine hkeeps handle key f List.mem_cons_self obj ?_
              simpa using List.find?_some hobj
          | _ => trivial
      | _ => trivial

-- Every handle leads where the register says, and every shelf is what its own calls made of it.
structure Recounts (shelves : Shelves α) (register : Register) (past : Nat → List (ShelfCall α)) :
    Prop where
  handles_eq : shelves.handles = register.homes
  length_eq : shelves.cells.length = register.stocked
  home_lt : ∀ home ∈ register.homes, home < register.stocked
  unstocked : ∀ home, register.stocked ≤ home → past home = []
  shelf_recounts : ∀ home (shelf : Shelf α), shelves.cells[home]? = some shelf →
    shelf.Recounts (past home)

theorem recounts_empty : Recounts (empty : Shelves α) .empty fun _ => [] := by
  constructor <;> simp [empty, Register.empty]

theorem Recounts.stock (hrecounts : Recounts shelves register past) (objects : List α) :
    Recounts (shelves.step (.stock objects)) (register.enter (.stock objects))
      fun home => past home ++ register.made home (.stock objects) := by
  have hlength := hrecounts.length_eq
  constructor
  case handles_eq =>
    simp only [step, Shared.fresh, Register.enter, hrecounts.handles_eq, hlength]
  case length_eq => simp [step, Shared.fresh, Register.enter, hlength]
  case home_lt =>
    refine List.forall_mem_append.mpr ⟨fun home hhome => ?_, by simp [Register.enter]⟩
    exact Nat.lt_succ_of_lt (hrecounts.home_lt home hhome)
  case unstocked =>
    intro home hle
    have hlt : register.stocked < home := hle
    rw [hrecounts.unstocked home (Nat.le_of_lt hlt), Register.made, if_neg (Nat.ne_of_lt hlt),
      List.append_nil]
  case shelf_recounts =>
    intro home shelf hshelf
    simp only [step, Shared.fresh, List.getElem?_append] at hshelf
    split at hshelf
    next hlt =>
      rw [Register.made, if_neg (by omega), List.append_nil]
      exact hrecounts.shelf_recounts home shelf hshelf
    next hge =>
      obtain ⟨hzero, rfl⟩ : home - shelves.cells.length = 0 ∧ .ofObjects objects = shelf := by
        simpa [List.getElem?_singleton] using hshelf
      rw [hrecounts.unstocked home (by omega), Register.made, if_pos (by omega), List.nil_append]
      exact Shelf.ofObjects_recounts objects

theorem Recounts.clone (hrecounts : Recounts shelves register past) (handle : Nat) :
    Recounts (shelves.step (.clone handle)) (register.enter (.clone handle : ShelfStep α))
      fun home => past home ++ register.made home (.clone handle) := by
  simp only [Register.made, List.append_nil]
  refine { hrecounts with handles_eq := ?_, home_lt := ?_ }
  · simp only [step, Shared.share, Shared.cell?, Register.enter, hrecounts.handles_eq]
  · refine List.forall_mem_append.mpr ⟨hrecounts.home_lt, fun home hhome => ?_⟩
    exact hrecounts.home_lt home (List.mem_of_getElem? (Option.mem_toList.mp hhome))

theorem Recounts.call (hrecounts : Recounts shelves register past) (handle : Nat)
    (call : ShelfCall α) (hkeeps : shelves.KeepsKey (.call handle call)) :
    Recounts (shelves.step (.call handle call)) (register.enter (.call handle call))
      fun home => past home ++ register.made home (.call handle call) := by
  have hcell : shelves.cell? handle = register.homes[handle]? := by
    rw [Shared.cell?, hrecounts.handles_eq]
  simp only [step, Shared.modify, Register.made, Register.enter, ← hcell]
  cases hhome : shelves.cell? handle with
  | none => simpa using hrecounts
  | some called =>
      have hmem : called ∈ register.homes := List.mem_of_getElem? (hcell ▸ hhome)
      constructor
      case handles_eq => exact hrecounts.handles_eq
      case length_eq => simpa using hrecounts.length_eq
      case home_lt => exact hrecounts.home_lt
      case unstocked =>
        intro home hle
        have hlt := hrecounts.home_lt called hmem
        rw [hrecounts.unstocked home hle, if_neg (by simp; omega), List.nil_append]
      case shelf_recounts =>
        intro home shelf hshelf
        simp only [List.getElem?_modify] at hshelf
        obtain ⟨before, hbefore, rfl⟩ := Option.map_eq_some_iff.mp hshelf
        have hrecount := hrecounts.shelf_recounts home before hbefore
        by_cases hcalled : called = home
        · subst hcalled
          have hread : shelves.read? handle = some before := by
            rw [Shared.read?, hhome, Option.bind_some, hbefore]
          simpa using hrecount.step (hkeeps before hread)
        · simpa [hcalled] using hrecount

theorem Recounts.step (hrecounts : Recounts shelves register past) (s : ShelfStep α)
    (hkeeps : shelves.KeepsKey s) :
    Recounts (shelves.step s) (register.enter s)
      fun home => past home ++ register.made home s := by
  cases s with
  | stock objects => exact hrecounts.stock objects
  | clone handle => exact hrecounts.clone handle
  | call handle call => exact hrecounts.call handle call hkeeps

theorem Recounts.run (hrecounts : Recounts shelves register past) (steps : List (ShelfStep α))
    (hkeeps : shelves.KeepsKeys steps) :
    Recounts (shelves.run steps) (register.run steps)
      fun home => past home ++ register.madeFrom home steps := by
  induction steps generalizing shelves register past with
  | nil => simpa [Shelves.run, Register.run, Register.madeFrom] using hrecounts
  | cons s rest ih =>
      have hrest := ih (hrecounts.step s hkeeps.1) hkeeps.2
      simpa [Shelves.run, Register.run, Register.madeFrom] using hrest

-- Whatever is done through whatever handles, the handles of a shelf all show one map in order of
-- insertion, made by the calls on that shelf.
theorem shelves_act_as_maps (steps : List (ShelfStep α))
    (hkeeps : (empty : Shelves α).KeepsKeys steps) :
    (empty.run steps).handles.length = (Register.empty.run steps).homes.length ∧
      ∀ home ∈ (Register.empty.run steps).homes, ∃ shelf : Shelf α,
        (∀ handle, (Register.empty.run steps).homes[handle]? = some home →
          (empty.run steps).read? handle = some shelf) ∧
        shelf.ActsAsMap (callsOn home steps) := by
  have hrun := recounts_empty.run steps hkeeps
  refine ⟨by rw [hrun.handles_eq], fun home hhome => ?_⟩
  have hlt : home < (empty.run steps).cells.length := hrun.length_eq ▸ hrun.home_lt home hhome
  have hshelf := List.getElem?_eq_getElem hlt
  refine ⟨_, fun handle hhandle => ?_, (hrun.shelf_recounts home _ hshelf).actsAsMap⟩
  rw [Shared.read?, Shared.cell?, hrun.handles_eq, hhandle, Option.bind_some, hshelf]

-- Two handles of one shelf and a third of another. One key is of the whole cluster, one in the
-- empty namespace.
def visits : List (ShelfStep Metadata) :=
  [.stock [{ name := "a" }],
    .clone 0,
    .call 1 (.insert { name := "a", scope := some "" }),
    .stock [],
    .call 1 (.insert { name := "a", scope := some "ns" }),
    .call 0 (.update (.inScope "" "a") fun m => { m with generation := 2 }),
    .call 1 (.list (some "")),
    .call 2 (.get ⟨none, "a"⟩),
    .call 0 (.delete ⟨none, "a"⟩)]

theorem shelves_act_as_maps_of_visits :
    (empty : Shelves Metadata).KeepsKeys visits ∧
      ∃ shelf : Shelf Metadata, (∀ handle ∈ [0, 1], (empty.run visits).read? handle = some shelf) ∧
        shelf.ActsAsMap (callsOn 0 visits) := by
  have hkeeps : (empty : Shelves Metadata).KeepsKeys visits := by
    refine keepsKeys_of_forall (fun handle key f hmem obj hkey => ?_) _
    obtain ⟨_, _, rfl⟩ : handle = 0 ∧ key = .inScope "" "a" ∧
        f = fun m => { m with generation := 2 } := by simpa [visits] using hmem
    exact hkey
  obtain ⟨shelf, hread, hacts⟩ := (shelves_act_as_maps visits hkeeps).2 0 (by decide)
  exact ⟨hkeeps, shelf, List.forall_mem_cons.mpr ⟨hread 0 rfl, by simpa using hread 1 rfl⟩, hacts⟩

example : ((empty.run visits).views.map fun shelf => shelf.objects.map Keyed.key) =
    [[.inScope "" "a", .inScope "ns" "a"], [.inScope "" "a", .inScope "ns" "a"], []] := by decide

end Shelves

end Eventually
