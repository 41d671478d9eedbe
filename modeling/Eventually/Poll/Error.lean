import Eventually.Assertion.Identity
import Eventually.Explanation
import Eventually.Store.Basic
import Eventually.Text.Lines

namespace Eventually

-- What is known when time has run out. Failures and explanation are about one object, the last
-- that was seen or the one that came closest.
structure TimeoutReport where
  awaited : String
  elapsed : Duration
  lastError : Option String := none
  failures : List String := []
  explanation : Option Explanation := none

namespace TimeoutReport

def errorText (r : TimeoutReport) : String :=
  match r.lastError with
  | some e => "\nlast store error: " ++ e
  | none => ""

def failuresText (r : TimeoutReport) : String :=
  if r.failures.isEmpty then ""
  else r.failures.foldl (fun text failure => text ++ "\n  - " ++ failure) "\nfailures:"

def explanationText (r : TimeoutReport) : String :=
  match r.explanation with
  | none => ""
  | some e =>
      if e.isEmpty then ""
      else
        (Text.lines e.text).foldl (fun text line => text ++ "\n  " ++ line)
          "\nactual -> expected:"

def message (r : TimeoutReport) : String :=
  "timed out after " ++ r.elapsed.text ++ " waiting for " ++ r.awaited ++ r.errorText ++
    r.failuresText ++ r.explanationText

end TimeoutReport

inductive PollError where
  | identity (error : IdentityError)
  | view (error : ViewError)
  | store (awaited : String) (elapsed : Duration) (source : StoreError)
  | timeout (report : TimeoutReport)

namespace PollError

def message : PollError → String
  | identity e => "cannot determine what to wait for: " ++ e.message
  | view e => e.message
  | store awaited elapsed source =>
      "store error while waiting for " ++ awaited ++ " after " ++ elapsed.text ++ ": " ++
        source.message
  | timeout report => report.message

end PollError

end Eventually
