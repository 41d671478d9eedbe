import Eventually.Duration
import Eventually.Text.Blank

namespace Eventually

-- How long to wait, and the pause between two looks.
structure PollConfig where
  timeout : Duration := .ofSeconds 120
  tick : Duration := .ofSeconds 1
deriving DecidableEq

namespace PollConfig

-- Short timing for objects that change within milliseconds.
def brisk : PollConfig := ⟨.ofSeconds 5, .ofMillis 10⟩

-- The pause that is really made, which is never shorter than a millisecond.
def effectiveTick (config : PollConfig) : Duration := ⟨max config.tick.nanos 1000000⟩

-- Milliseconds as a whole number of 64 bits, blanks around it and a plus sign allowed.
def readMillis? (s : String) : Option Duration :=
  let cs := Text.trim s.toList
  let digits := match cs with
    | '+' :: rest => rest
    | _ => cs
  if digits.isEmpty || !digits.all Char.isDigit then none
  else
    let count := Text.decimalValue digits
    if count < UInt64.size then some (.ofMillis count) else none

-- The defaults, each overridden by the text of its variable when that is set and readable.
def ofVariables (timeout tick : Option String) : PollConfig :=
  { timeout := (timeout.bind readMillis?).getD ({} : PollConfig).timeout
    tick := (tick.bind readMillis?).getD ({} : PollConfig).tick }

def toJson (config : PollConfig) : Json :=
  .ofFields [("timeout", config.timeout.toJson), ("tick", config.tick.toJson)]

def ofJson? (document : Json) : Option PollConfig := do
  let fields ← document.record? ["timeout", "tick"]
  let timeout ← Json.defaulted fields "timeout" ({} : PollConfig).timeout Duration.ofJson?
  let tick ← Json.defaulted fields "tick" ({} : PollConfig).tick Duration.ofJson?
  some { timeout, tick }

end PollConfig

end Eventually
