import Eventually.Text.Blank
import Eventually.Text.Digits

namespace Eventually

def isLeapYear (year : Int) : Bool := year % 4 == 0 && (year % 100 != 0 || year % 400 == 0)

def daysInMonth (year : Int) (month : Nat) : Nat :=
  if month = 2 then if isLeapYear year then 29 else 28
  else if month = 4 ∨ month = 6 ∨ month = 9 ∨ month = 11 then 30
  else 31

structure Date where
  year : Int
  month : Nat
  day : Nat
deriving DecidableEq

namespace Date

def Valid (d : Date) : Prop :=
  -262143 ≤ d.year ∧ d.year ≤ 262142 ∧ 1 ≤ d.month ∧ d.month ≤ 12 ∧
    1 ≤ d.day ∧ d.day ≤ daysInMonth d.year d.month

instance (d : Date) : Decidable d.Valid := by unfold Valid; infer_instance

def next (d : Date) : Date :=
  if d.day < daysInMonth d.year d.month then ⟨d.year, d.month, d.day + 1⟩
  else if d.month < 12 then ⟨d.year, d.month + 1, 1⟩
  else ⟨d.year + 1, 1, 1⟩

def previous (d : Date) : Date :=
  if 1 < d.day then ⟨d.year, d.month, d.day - 1⟩
  else if 1 < d.month then ⟨d.year, d.month - 1, daysInMonth d.year (d.month - 1)⟩
  else ⟨d.year - 1, 12, 31⟩

end Date

-- An instant of universal time. Second 60 is a leap second, which any minute may have.
structure Timestamp where
  date : Date
  hour : Nat
  minute : Nat
  second : Nat
  nano : Nat
  date_valid : date.Valid
  hour_lt : hour < 24
  minute_lt : minute < 60
  second_le : second ≤ 60
  nano_lt : nano < 1000000000
deriving DecidableEq

namespace Timestamp

def build? (date : Date) (hour minute second nano : Nat) : Option Timestamp :=
  if h : date.Valid ∧ hour < 24 ∧ minute < 60 ∧ second ≤ 60 ∧ nano < 1000000000 then
    some ⟨date, hour, minute, second, nano, h.1, h.2.1, h.2.2.1, h.2.2.2.1, h.2.2.2.2⟩
  else none

-- The universal time of a local one that is `offset` minutes ahead, by less than a day.
def ofLocal? (t : Timestamp) (offset : Int) : Option Timestamp :=
  let minutes := Int.ofNat (t.hour * 60 + t.minute) - offset
  let date :=
    if minutes < 0 then t.date.previous else if 1440 ≤ minutes then t.date.next else t.date
  let ofDay := (minutes.emod 1440).toNat
  build? date (ofDay / 60) (ofDay % 60) t.second t.nano

-- A number of one digit up to `most`, blanks allowed before it.
def number? (most : Nat) (cs : List Char) : Option (Nat × List Char) :=
  let cs := Text.trimStart cs
  match (cs.take most).takeWhile Char.isDigit with
  | [] => none
  | digits => some (Text.decimalValue digits, cs.drop digits.length)

-- A year of up to four digits, or one of any length behind a sign.
def year? (cs : List Char) : Option (Int × List Char) :=
  let signed (cs : List Char) : Option (Int × List Char) :=
    match cs.span Char.isDigit with
    | ([], _) => none
    | (digits, rest) => some (Int.ofNat (Text.decimalValue digits), rest)
  match Text.trimStart cs with
  | '-' :: rest => (signed rest).map fun (year, rest) => (-year, rest)
  | '+' :: rest => signed rest
  | rest => (number? 4 rest).map fun (year, rest) => (Int.ofNat year, rest)

-- The mark between two numbers, blanks allowed before it.
def mark? (mark : Char) (cs : List Char) : Option (List Char) :=
  match Text.trimStart cs with
  | c :: rest => if c = mark then some rest else none
  | [] => none

-- Nanoseconds: nine digits count, further ones are dropped.
def fraction? : List Char → Option (Nat × List Char)
  | '.' :: rest =>
      match rest.span Char.isDigit with
      | ([], _) => none
      | (digits, rest) =>
          let kept := digits.take 9
          some (Text.decimalValue kept * Nat.pow 10 (9 - kept.length), rest)
  | rest => some (0, rest)

-- Hours and minutes of two digits each, colons and blanks allowed between them.
def hoursMinutes? : List Char → Option (Nat × List Char)
  | h₁ :: h₂ :: rest =>
      match rest.dropWhile fun c => c = ':' || Text.isBlank c with
      | m₁ :: m₂ :: rest =>
          let hours := Text.decimalValue [h₁, h₂]
          let minutes := Text.decimalValue [m₁, m₂]
          if [h₁, h₂, m₁, m₂].all Char.isDigit && hours < 24 && minutes < 60 then
            some (hours * 60 + minutes, rest)
          else none
      | _ => none
  | _ => none

-- Minutes ahead of universal time.
def offset? (cs : List Char) : Option (Int × List Char) :=
  let signed (negative : Bool) (rest : List Char) : Option (Int × List Char) :=
    (hoursMinutes? rest).map fun (minutes, rest) =>
      (if negative then -Int.ofNat minutes else Int.ofNat minutes, rest)
  match cs with
  | 'Z' :: rest => some (0, rest)
  | 'z' :: rest => some (0, rest)
  | '+' :: rest => signed false rest
  | '-' :: rest => signed true rest
  | '−' :: rest => signed true rest
  | _ =>
      if (cs.take 3).map Char.toUpper = "UTC".toList then some (0, cs.drop 3) else none

-- Date and time with an offset, which must be there.
def ofText? (s : String) : Option Timestamp := do
  let (year, rest) ← year? s.toList
  let rest ← mark? '-' rest
  let (month, rest) ← number? 2 rest
  let rest ← mark? '-' rest
  let (day, rest) ← number? 2 rest
  let rest ← match rest with
    | c :: rest => if c = 'T' ∨ c = 't' ∨ c = ' ' then some rest else none
    | [] => none
  let (hour, rest) ← number? 2 rest
  let rest ← mark? ':' rest
  let (minute, rest) ← number? 2 rest
  let rest ← mark? ':' rest
  let (second, rest) ← number? 2 rest
  let (nano, rest) ← fraction? rest
  let (offset, rest) ← offset? (Text.trimStart rest)
  if !(Text.trimStart rest).isEmpty then none
  else
    let stamp ← build? ⟨year, month, day⟩ hour minute second nano
    stamp.ofLocal? offset

-- A year outside four digits is written with its sign.
def yearText (year : Int) : String :=
  if 0 ≤ year ∧ year ≤ 9999 then Text.padded 4 year.toNat
  else (if year < 0 then "-" else "+") ++ Text.padded 4 year.natAbs

-- The fewest of no, three, six and nine digits that are exact.
def fractionText (nano : Nat) : String :=
  if nano = 0 then ""
  else if nano % 1000000 = 0 then "." ++ Text.padded 3 (nano / 1000000)
  else if nano % 1000 = 0 then "." ++ Text.padded 6 (nano / 1000)
  else "." ++ Text.padded 9 nano

def text (t : Timestamp) : String :=
  yearText t.date.year ++ "-" ++ Text.padded 2 t.date.month ++ "-" ++ Text.padded 2 t.date.day ++
    "T" ++ Text.padded 2 t.hour ++ ":" ++ Text.padded 2 t.minute ++ ":" ++
    Text.padded 2 t.second ++ fractionText t.nano ++ "Z"

end Timestamp

end Eventually
