import HierarchyLint.Text.Template
import HierarchyLint.Yaml.Library
import HierarchyLint.Yaml.Plain

/-!
# Moments

A scalar that is spelled like a date, perhaps with a time of day behind it, is a moment. The
spelling does not settle whether there is such a day and such a time, so a moment may turn out to be
none.
-/

namespace HierarchyLint.Yaml

open Text.Template (leadingNumber)

def padded (width n : Nat) : String := String.ofList (List.leftpad width '0' (Nat.toDigits 10 n))

/-! ## Days -/

structure Day where
  year : Nat
  month : Nat
  day : Nat
  deriving DecidableEq, Repr

namespace Day

def isLeap (year : Nat) : Bool := year % 4 == 0 && (year % 100 != 0 || year % 400 == 0)

def daysIn (year month : Nat) : Nat :=
  if month = 2 then if isLeap year then 29 else 28
  else if month ∈ [4, 6, 9, 11] then 30
  else 31

def fault? (d : Day) : Option String :=
  if d.year = 0 then some "year 0 is out of range"
  else if d.month = 0 ∨ 12 < d.month then some "month must be in 1..12"
  else if d.day = 0 ∨ daysIn d.year d.month < d.day then some "day is out of range for month"
  else none

def text (d : Day) : String := padded 4 d.year ++ "-" ++ padded 2 d.month ++ "-" ++ padded 2 d.day

def fields (d : Day) : List String := [d.year, d.month, d.day].map toString

def describe (d : Day) : String := "datetime.date(" ++ ", ".intercalate d.fields ++ ")"

/-- The day at the front of the characters, and what follows it. -/
def leading (cs : List Char) : Day × List Char :=
  let (year, cs) := leadingNumber cs
  let (month, cs) := leadingNumber (cs.drop 1)
  let (day, cs) := leadingNumber (cs.drop 1)
  (⟨year, month, day⟩, cs)

end Day

/-! ## Times of day -/

structure Time where
  hour : Nat
  minute : Nat
  second : Nat
  micros : Nat
  /-- How many minutes the clock is ahead of universal time, if that is told. -/
  offset : Option Int
  deriving DecidableEq, Repr

namespace Time

def offsetText (minutes : Int) : String :=
  (if minutes < 0 then "-" else "+") ++ padded 2 (minutes.natAbs / 60) ++ ":"
    ++ padded 2 (minutes.natAbs % 60)

/-- A span of minutes as a record of days and seconds, of which only the days may be negative. -/
def describeSpan (minutes : Int) : String :=
  let days := minutes / 1440
  let seconds := 60 * (minutes % 1440)
  let parts :=
    (if days = 0 then [] else ["days=" ++ toString days])
      ++ (if seconds = 0 then [] else ["seconds=" ++ toString seconds])
  "datetime.timedelta(" ++ (if parts.isEmpty then "0" else ", ".intercalate parts) ++ ")"

def describeOffset (minutes : Int) : String :=
  if minutes = 0 then "datetime.timezone.utc"
  else "datetime.timezone(" ++ describeSpan minutes ++ ")"

/-- An offset is less than a day. -/
def offsetFault? (minutes : Int) : Option String :=
  if minutes.natAbs < 1440 then none
  else some ("offset must be a timedelta strictly between -timedelta(hours=24) and "
    ++ "timedelta(hours=24), not " ++ describeSpan minutes ++ ".")

def fault? (t : Time) : Option String :=
  if 23 < t.hour then some "hour must be in 0..23"
  else if 59 < t.minute then some "minute must be in 0..59"
  else if 59 < t.second then some "second must be in 0..59"
  else none

def text (t : Time) : String :=
  padded 2 t.hour ++ ":" ++ padded 2 t.minute ++ ":" ++ padded 2 t.second
    ++ (if t.micros = 0 then "" else "." ++ padded 6 t.micros)
    ++ (t.offset.map offsetText).getD ""

/-- The fields of a record; seconds and microseconds are left out if nothing follows but zeros. -/
def fields (t : Time) : List String :=
  [toString t.hour, toString t.minute]
    ++ (if t.second = 0 ∧ t.micros = 0 then [] else [toString t.second])
    ++ (if t.micros = 0 then [] else [toString t.micros])
    ++ (t.offset.map fun minutes => "tzinfo=" ++ describeOffset minutes).toList

def offsetOf (cs : List Char) : Option Int :=
  match cs.dropWhile isBlankChar with
  | [] => none
  | 'Z' :: _ => some 0
  | sign :: cs =>
    let (hours, cs) := leadingNumber cs
    let (minutes, _) := leadingNumber (cs.drop 1)
    let size : Int := 60 * hours + minutes
    some (if sign = '-' then -size else size)

/-- The time that the characters spell. Of a fraction six digits count. -/
def ofChars (cs : List Char) : Time :=
  let (hour, cs) := leadingNumber cs
  let (minute, cs) := leadingNumber (cs.drop 1)
  let (second, cs) := leadingNumber (cs.drop 1)
  let fraction := (cs.drop 1).takeWhile Char.isDigit
  if cs.head? = some '.' then
    ⟨hour, minute, second, (leadingNumber ((fraction.rightpad 6 '0').take 6)).1,
      offsetOf (cs.drop (fraction.length + 1))⟩
  else ⟨hour, minute, second, 0, offsetOf cs⟩

end Time

/-! ## Values -/

/-- The moment that a scalar of such a spelling stands for. The offset is looked at first. -/
def momentValue (text : String) : Except ReadFault Value :=
  let (day, cs) := Day.leading text.toList
  match cs.dropWhile fun c => !c.isDigit with
  | [] =>
    match day.fault? with
    | some message => .error (.valueError message)
    | none => .ok (.other day.text day.describe false none)
  | cs =>
    let time := Time.ofChars cs
    match (time.offset.bind Time.offsetFault?).or (day.fault?.or time.fault?) with
    | some message => .error (.valueError message)
    | none =>
      .ok (.other (day.text ++ " " ++ time.text)
        ("datetime.datetime(" ++ ", ".intercalate (day.fields ++ time.fields) ++ ")") false none)

end HierarchyLint.Yaml
