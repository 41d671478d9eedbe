import Eventually.Json.Record
import Eventually.Text.Digits

namespace Eventually

-- A span of time in whole nanoseconds.
structure Duration where
  nanos : Nat
deriving DecidableEq

namespace Duration

def perSecond : Nat := 1000000000

-- Durations have 64 bits of seconds and a part of a second: all lie below this many nanoseconds.
def limit : Nat := UInt64.size * perSecond

def zero : Duration := ⟨0⟩

def ofParts (seconds nanos : Nat) : Duration := ⟨seconds * perSecond + nanos⟩

def ofSeconds (count : Nat) : Duration := ofParts count 0

def ofMillis (count : Nat) : Duration := ⟨count * 1000000⟩

def seconds (d : Duration) : Nat := d.nanos / perSecond

def subsecond (d : Duration) : Nat := d.nanos % perSecond

-- Whole milliseconds, the part below dropped.
def millis (d : Duration) : Nat := d.nanos / 1000000

-- The sum, if it is a duration again.
def add? (a b : Duration) : Option Duration :=
  if a.nanos + b.nanos < limit then some ⟨a.nanos + b.nanos⟩ else none

-- The digits after the point, without zeros at their end.
def fractionText (places fraction : Nat) : String :=
  if fraction == 0 then ""
  else
    let digits := (Text.padded places fraction).toList.reverse.dropWhile (· = '0')
    "." ++ String.ofList digits.reverse

-- The largest unit with a whole part, then the exact fraction of it.
def text (d : Duration) : String :=
  let inUnit (size places : Nat) (unit : String) : String :=
    toString (d.nanos / size) ++ fractionText places (d.nanos % size) ++ unit
  if perSecond ≤ d.nanos then inUnit perSecond 9 "s"
  else if 1000000 ≤ d.nanos then inUnit 1000000 6 "ms"
  else if 1000 ≤ d.nanos then inUnit 1000 3 "µs"
  else inUnit 1 0 "ns"

def toJson (d : Duration) : Json :=
  .ofFields [("secs", .int d.seconds), ("nanos", .int d.subsecond)]

-- Both parts are needed and no others allowed. Nanoseconds beyond a second carry over.
def ofJson? (document : Json) : Option Duration := do
  let names := ["secs", "nanos"]
  let fields ← document.record? names
  if fields.any fun field => !names.contains field.1 then none
  else
    let seconds ← Json.required fields "secs" (Json.natBelow? UInt64.size)
    let nanos ← Json.required fields "nanos" (Json.natBelow? UInt32.size)
    let total := ofParts seconds nanos
    if total.nanos < limit then some total else none

end Duration

end Eventually
