import Eventually.Poll.Rounds
import Eventually.Poll.Scan

namespace Eventually

-- What is waited for: a checklist, the timing, and what is not to be taken from the checklist.
structure Watch (α : Type) : Type 1 where
  list : Checklist α
  config : PollConfig := {}
  key : Option Key := none
  scope : Option String := none
  kind : String

-- Timeout and tick together are too long for a duration, which stops a poll before its first call.
inductive Refusal where
  | durationOverflow
deriving DecidableEq

namespace Refusal

def message : Refusal → String
  | durationOverflow => "overflow when adding durations"

end Refusal

namespace Watch

def start [KindName α] (list : Checklist α) : Watch α := { list, kind := KindName.kindName α }

-- An explicit key counts more than what the checklist pins down.
def lookupKey (watch : Watch α) : Except IdentityError Key :=
  match watch.key with
  | some key => .ok key
  | none => watch.list.key

def lookupScope (watch : Watch α) : Except IdentityError (Option String) :=
  match watch.scope with
  | some scope => .ok (some scope)
  | none => watch.list.scopeHint

def countText (watch : Watch α) : String :=
  " matching " ++ toString watch.list.length ++ " assertion(s)"

def awaitedMatch (watch : Watch α) (key : Key) : String :=
  watch.kind ++ " " ++ key.text ++ watch.countText

def placeText : Option String → String
  | some scope => "namespace " ++ scope
  | none => "all namespaces"

def awaitedAny (watch : Watch α) (scope : Option String) : String :=
  "any " ++ watch.kind ++ " in " ++ placeText scope ++ watch.countText

def awaitedDeletion (watch : Watch α) (key : Key) : String :=
  watch.kind ++ " " ++ key.text ++ " to be deleted"

-- An object that is no match, with its failures.
abbrev Candidate (α : Type) := α × List String

def getQuery (service : Service σ α) (key : Key) : Query σ α where
  call := service.get key
  late budget := .backend ("get " ++ key.text ++ " did not complete within " ++ budget.text)

def listQuery (service : Service σ α) (scope : Option String) : Query σ (List α) where
  call := service.list scope
  late budget := .backend ("list did not complete within " ++ budget.text)

-- An object that passes or cannot be viewed ends the poll. Any other object is remembered, and an
-- error of the store changes nothing.
def judgeObject (watch : Watch α) (exchange : Exchange α) (seen : Option (Candidate α)) :
    Verdict α (Option (Candidate α)) :=
  match exchange.answer with
  | .error _ => .undecided seen
  | .ok obj =>
      match watch.list.evaluate obj with
      | .error e => .settled (.error (.view e))
      | .ok failures =>
          if failures.isEmpty then .settled (.ok obj) else .undecided (some (obj, failures))

-- The closest candidate of the last list that was answered is remembered, also when that is none.
def judgeList (watch : Watch α) (exchange : Exchange (List α)) (closest : Option (Candidate α)) :
    Verdict α (Option (Candidate α)) :=
  match exchange.answer with
  | .error _ => .undecided closest
  | .ok candidates =>
      match watch.list.scan candidates with
      | .error e => .settled (.error (.view e))
      | .ok (.matched obj) => .settled (.ok obj)
      | .ok (.unmatched closest) => .undecided closest

-- Only an object that is still there leaves the poll undecided.
def judgeAbsence (awaited : String) (exchange : Exchange α) (_ : Unit) : Verdict Unit Unit :=
  match exchange.answer with
  | .ok _ => .undecided ()
  | .error (.notFound _) => .settled (.ok ())
  | .error e => .settled (.error (.store awaited exchange.finish e))

def lastErrorText (exchange : Exchange β) : Option String :=
  match exchange.answer with
  | .ok _ => none
  | .error e => some e.message

-- The report of a poll whose last call did not decide it.
def report [Writable α] (watch : Watch α) (awaited : String) (last : Exchange β)
    (best : Option (Candidate α)) : TimeoutReport where
  awaited := awaited
  elapsed := last.finish
  lastError := lastErrorText last
  failures := (best.map Prod.snd).getD []
  explanation := best.bind fun candidate => (watch.list.explain candidate.1).toOption

-- After the timeout one more call is made, and judged like the others.
def conclude [Writable α] (watch : Watch α) (awaited : String)
    (poll : Poll σ β α (Option (Candidate α))) (state : σ) : Run σ β α :=
  let rounds := poll.rounds .zero state none
  match rounds.verdict with
  | .settled outcome => ⟨rounds.exchanges, rounds.finish, rounds.state, outcome⟩
  | .undecided memory =>
      let (last, state) := poll.ask rounds.finish rounds.state
      let outcome := match poll.judge last memory with
        | .settled outcome => outcome
        | .undecided best => .error (.timeout (watch.report awaited last best))
      ⟨rounds.exchanges ++ [last], last.finish, state, outcome⟩

-- Waits until the object under the key is there and passes.
def matching [Writable α] (watch : Watch α) (service : Service σ α) (clock : Clock) (state : σ) :
    Except Refusal (Run σ α α) :=
  match watch.lookupKey with
  | .error e => .ok (.refused state (.identity e))
  | .ok key =>
      match watch.config.schedule? with
      | none => .error .durationOverflow
      | some schedule =>
          .ok (watch.conclude (watch.awaitedMatch key)
            ⟨getQuery service key, watch.judgeObject, clock, schedule⟩ state)

-- Waits until some object in the scope passes, and takes the first one in the store's order.
def firstMatching [Writable α] (watch : Watch α) (service : Service σ α) (clock : Clock)
    (state : σ) : Except Refusal (Run σ (List α) α) :=
  match watch.lookupScope with
  | .error e => .ok (.refused state (.identity e))
  | .ok scope =>
      match watch.config.schedule? with
      | none => .error .durationOverflow
      | some schedule =>
          .ok (watch.conclude (watch.awaitedAny scope)
            ⟨listQuery service scope, watch.judgeList, clock, schedule⟩ state)

def stillThere (awaited : String) (key : Key) (elapsed : Duration) : TimeoutReport where
  awaited := awaited
  elapsed := elapsed
  failures := [key.text ++ " still exists"]

-- Waits until the object under the key is gone. No call is made after the timeout.
def deleted (watch : Watch α) (service : Service σ α) (clock : Clock) (state : σ) :
    Except Refusal (Run σ α Unit) :=
  match watch.lookupKey with
  | .error e => .ok (.refused state (.identity e))
  | .ok key =>
      match watch.config.schedule? with
      | none => .error .durationOverflow
      | some schedule =>
          let awaited := watch.awaitedDeletion key
          let poll : Poll σ α Unit Unit :=
            ⟨getQuery service key, judgeAbsence awaited, clock, schedule⟩
          let rounds := poll.rounds .zero state ()
          let outcome := match rounds.verdict with
            | .settled outcome => outcome
            | .undecided _ => .error (.timeout (stillThere awaited key rounds.finish))
          .ok ⟨rounds.exchanges, rounds.finish, rounds.state, outcome⟩

end Watch

end Eventually
