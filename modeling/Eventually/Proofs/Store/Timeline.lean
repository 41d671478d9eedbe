import Eventually.Proofs.Poll.History
import Eventually.Store.Timeline

namespace Eventually

namespace Shelf

variable [Keyed α]

def contents (shelf : Shelf α) : Contents α := ⟨shelf.peek?, shelf.listed⟩

-- What a shelf has served is no part of its contents.
theorem contents_eq {shelf other : Shelf α} (hobjects : shelf.objects = other.objects) :
    shelf.contents = other.contents := by
  simp only [contents, Contents.mk.injEq]
  constructor
  · funext key
    rw [peek?, peek?, hobjects]
  · funext scope
    rw [listed, listed, hobjects]

end Shelf

namespace Timeline

variable [Keyed α]

theorem apply_objects {shelf other : Shelf α} (hobjects : shelf.objects = other.objects)
    (write : Write α) : (apply shelf write).objects = (apply other write).objects := by
  cases write with
  | insert obj => simp only [apply, Shelf.insert, hobjects]
  | delete key => simp only [apply, Shelf.delete, hobjects]
  | update key obj =>
      simp only [apply, Shelf.update, Shelf.update?, hobjects]
      cases Shelf.changeFirst? key (fun _ => obj) other.objects with
      | none => exact hobjects
      | some objects => rfl

theorem foldl_apply_objects (events : List (Event α)) {shelf other : Shelf α}
    (hobjects : shelf.objects = other.objects) :
    (events.foldl (fun shelf event => apply shelf event.write) shelf).objects =
      (events.foldl (fun shelf event => apply shelf event.write) other).objects := by
  induction events generalizing shelf other with
  | nil => exact hobjects
  | cons event rest ih => exact ih (apply_objects hobjects event.write)

-- Making the writes due now and later those due then is making all of them later.
theorem advance_advance (timeline : Timeline α) {now later : Duration}
    (hle : now.nanos ≤ later.nanos) :
    (timeline.advance now).advance later = timeline.advance later := by
  obtain ⟨shelf, pending⟩ := timeline
  induction pending generalizing shelf with
  | nil => rfl
  | cons event rest ih =>
      by_cases hnow : isDue now event
      · have hlater : isDue later event := by
          simp only [isDue, decide_eq_true_eq] at hnow ⊢
          omega
        simpa [advance, hnow, hlater] using ih (apply shelf event.write)
      · simp [advance, hnow]

-- From the time of its last write on a timeline does not change.
theorem advance_of_due (timeline : Timeline α) {now : Duration}
    (hdue : ∀ event ∈ timeline.pending, event.due.nanos ≤ now.nanos) :
    timeline.advance now =
      ⟨timeline.pending.foldl (fun shelf event => apply shelf event.write) timeline.shelf, []⟩ := by
  have hall : ∀ event ∈ timeline.pending, isDue now event := by
    simpa only [isDue, decide_eq_true_eq] using hdue
  have htake : timeline.pending.takeWhile (isDue now) = timeline.pending := by
    simpa using @List.takeWhile_append_of_pos _ _ _ [] hall
  have hdrop : timeline.pending.dropWhile (isDue now) = [] := by
    simpa using @List.dropWhile_append_of_pos _ _ _ [] hall
  rw [advance, htake, hdrop]

-- The contents at each time when nobody calls.
def history (timeline : Timeline α) : History α :=
  fun now => (timeline.advance now).shelf.contents

theorem history_advance (timeline : Timeline α) {now later : Duration}
    (hle : now.nanos ≤ later.nanos) (calls : Nat) :
    history { timeline.advance now with
      shelf := { (timeline.advance now).shelf with calls } } later = timeline.history later := by
  rw [history, history, ← timeline.advance_advance hle]
  exact Shelf.contents_eq (foldl_apply_objects _ rfl)

-- A call that makes the writes that are due and then answers from the contents.
def Serves (query : Query (Timeline α) β) (answer : Contents α → Except StoreError β) : Prop :=
  ∀ now timeline, query.call now timeline =
    .atOnce (answer (timeline.advance now).shelf.contents)
      { timeline.advance now with shelf := (timeline.advance now).shelf.served }

variable {query : Query (Timeline α) β} {answer : Contents α → Except StoreError β}

-- The history stays as it was, whoever calls and when.
theorem Serves.history_of_reaches (hserves : Serves query answer) {timeline : Timeline α}
    (hreaches : query.Reaches timeline now current) {later : Duration}
    (hle : now.nanos ≤ later.nanos) : current.history later = timeline.history later := by
  induction hreaches with
  | start => rfl
  | wait _ hwait ih => exact ih (Nat.le_trans hwait hle)
  | @call now current _ c hc ih =>
      have hbefore : now.nanos ≤ later.nanos := Nat.le_trans (Nat.le_add_right ..) hle
      rw [hserves] at hc
      cases hc
      rw [← ih hbefore]
      exact current.history_advance hbefore _

theorem Serves.follows (hserves : Serves query answer) (timeline : Timeline α)
    (fault : Duration → StoreError → Prop) :
    query.Follows (fun now => answer (timeline.history now)) fault timeline := by
  intro now current hreaches
  have hhistory := hserves.history_of_reaches hreaches (Nat.le_refl _)
  exact ⟨_, _, congrArg Reply.completion (hserves now current), .inl (congrArg answer hhistory)⟩

theorem get_follows (timeline : Timeline α) (key : Key) (fault : Duration → StoreError → Prop) :
    (Watch.getQuery service key).Follows (fun now => (timeline.history now).fetch key) fault
      timeline := by
  have hserves : Serves (Watch.getQuery service key) fun contents : Contents α =>
      contents.fetch key := fun _ _ => rfl
  exact hserves.follows timeline fault

theorem list_follows (timeline : Timeline α) (scope : Option String)
    (fault : Duration → StoreError → Prop) :
    (Watch.listQuery service scope).Follows (fun now => .ok ((timeline.history now).listed scope))
      fault timeline := by
  have hserves : Serves (Watch.listQuery service scope) fun contents : Contents α =>
      .ok (contents.listed scope) := fun _ _ => rfl
  exact hserves.follows timeline fault

end Timeline

end Eventually
