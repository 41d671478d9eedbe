namespace Eventually

-- An assertion about a part was tested on a whole that has no such part.
structure ViewError where
  assertion : String
  source : String
  target : String
deriving DecidableEq

namespace ViewError

def message (e : ViewError) : String :=
  "invalid conversion: cannot view " ++ e.source ++ " as " ++ e.target ++ " for assertion '" ++
    e.assertion ++ "'"

end ViewError

-- Where a test reports what it finds. A sink that makes no difference between failures takes a
-- view error for one of them.
class Sink (σ : Type) where
  failure : σ → String → σ
  log : σ → String → σ
  helper : σ → σ := fun sink => sink
  viewError : σ → ViewError → σ := fun sink e => failure sink e.message
  failed : σ → Bool

-- What an assertion reports at one time.
inductive Report where
  | failure (message : String)
  | log (message : String)
  | viewError (error : ViewError)
deriving DecidableEq

def Sink.accept [Sink σ] (sink : σ) : Report → σ
  | .failure message => Sink.failure sink message
  | .log message => Sink.log sink message
  | .viewError e => Sink.viewError sink e

-- All failures and logs in the order of the reports, a view error being a failure too. Of several
-- view errors the first is kept.
structure Findings where
  failures : List String := []
  logs : List String := []
  viewError : Option ViewError := none
deriving DecidableEq

instance : Sink Findings where
  failure found message := { found with failures := found.failures ++ [message] }
  log found message := { found with logs := found.logs ++ [message] }
  viewError found e :=
    { found with
      failures := found.failures ++ [e.message]
      viewError := found.viewError.or (some e) }
  failed found := !found.failures.isEmpty

-- One line for each call of a sink without a notion of view errors.
structure Transcript where
  lines : List String := []
  failed : Bool := false
deriving DecidableEq

instance : Sink Transcript where
  failure script message := ⟨script.lines ++ ["error: " ++ message], true⟩
  log script message := { script with lines := script.lines ++ ["log: " ++ message] }
  helper script := { script with lines := script.lines ++ ["helper"] }
  failed script := script.failed

end Eventually
