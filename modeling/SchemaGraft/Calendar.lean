import SchemaGraft.Text.Digits

/-!
# Dates and times of day

The calendar values that a YAML document can hold, with the check of their fields and their two
written forms: the ISO 8601 form that documents use, and the form that messages show.
-/

namespace SchemaGraft

structure Date where
  -- from 1 to 9999
  year : Nat
  -- from 1 to 12
  month : Nat
  -- from 1 to the number of days of the month
  day : Nat
deriving DecidableEq, Repr

/-- A date with a time of day, and perhaps the offset of its time zone. -/
structure Timestamp where
  date : Date
  -- from 0 to 23
  hour : Nat
  -- from 0 to 59
  minute : Nat
  -- from 0 to 59
  second : Nat
  -- from 0 to 999999
  microsecond : Nat
  -- minutes east of Greenwich, when a time zone is given
  offset : Option Int
deriving DecidableEq, Repr

inductive CalendarFault where
  | year (year : Nat)
  | month
  | day
  | hour
  | minute
  | second
  -- the time zone is a day or more away
  | offset (minutes : Int)
deriving DecidableEq, Repr

/-! ## Checks -/

namespace Date

def isLeapYear (year : Nat) : Bool :=
  year % 4 == 0 && (year % 100 != 0 || year % 400 == 0)

def daysInMonth (year month : Nat) : Nat :=
  match month with
  | 2 => if isLeapYear year then 29 else 28
  | 4 | 6 | 9 | 11 => 30
  | _ => 31

/-- The date with the given fields, or the first field that is out of range. -/
def check (year month day : Nat) : Except CalendarFault Date :=
  if year < 1 ∨ 9999 < year then .error (.year year)
  else if month < 1 ∨ 12 < month then .error .month
  else if day < 1 ∨ daysInMonth year month < day then .error .day
  else .ok ⟨year, month, day⟩

def dayNumber (d : Date) : Nat :=
  let y := d.year - 1
  let before := (List.range (d.month - 1)).foldl (fun n m => n + daysInMonth d.year (m + 1)) 0
  y * 365 + y / 4 - y / 100 + y / 400 + before + (d.day - 1)

end Date

namespace Timestamp

/-- The point in time, in microseconds, taking a missing time zone for Greenwich. -/
def instant (t : Timestamp) : Int :=
  let minutes : Int := t.date.dayNumber * 1440 + t.hour * 60 + t.minute - t.offset.getD 0
  (minutes * 60 + t.second) * 1000000 + t.microsecond

/-- The same point in time; a time without zone is never the same as one with a zone. -/
def same (s t : Timestamp) : Bool :=
  s.offset.isSome == t.offset.isSome && s.instant == t.instant

/-- The offset of a time zone must be less than a day. -/
def checkOffset (minutes : Int) : Except CalendarFault Int :=
  if minutes.natAbs < 1440 then .ok minutes else .error (.offset minutes)

/-- The time of day with the given fields on a date, or the first field that is out of range. -/
def check (date : Date) (hour minute second microsecond : Nat) (offset : Option Int) :
    Except CalendarFault Timestamp :=
  if 23 < hour then .error .hour
  else if 59 < minute then .error .minute
  else if 59 < second then .error .second
  else .ok ⟨date, hour, minute, second, microsecond, offset⟩

end Timestamp

/-! ## Written forms -/

def Date.iso (d : Date) : Text :=
  Text.ofChars (Digits.padded 4 d.year ++ '-' :: Digits.padded 2 d.month ++
    '-' :: Digits.padded 2 d.day)

/-- The ISO 8601 form of a timestamp; the fraction is left out when it is zero. -/
def Timestamp.iso (t : Timestamp) : Text :=
  let fraction := if t.microsecond = 0 then [] else '.' :: Digits.padded 6 t.microsecond
  let zone :=
    match t.offset with
    | none => []
    | some 0 => ['Z']
    | some m =>
      (if m < 0 then '-' else '+') :: Digits.padded 2 (m.natAbs / 60) ++
        ':' :: Digits.padded 2 (m.natAbs % 60)
  t.date.iso ++ Text.ofChars ('T' :: Digits.padded 2 t.hour ++ ':' :: Digits.padded 2 t.minute ++
    ':' :: Digits.padded 2 t.second ++ fraction ++ zone)

/-- The form in which messages show a length of time of whole minutes. -/
def displayMinutes (minutes : Int) : Text :=
  let days := minutes.fdiv 1440
  let seconds := minutes.fmod 1440 * 60
  let parts : List Text :=
    (if days = 0 then [] else ["days=" ++ Text.ofInt days]) ++
      (if seconds = 0 then [] else ["seconds=" ++ Text.ofInt seconds])
  "datetime.timedelta(" ++ (if parts.isEmpty then Text.ofString "0" else Text.join ", " parts) ++ ")"

def Date.display (d : Date) : Text :=
  "datetime.date(" ++ Text.join ", " [Text.ofNat d.year, Text.ofNat d.month, Text.ofNat d.day] ++ ")"

/-- The form in which messages show a timestamp: seconds and microseconds are left out when they and
all that follows them are zero. -/
def Timestamp.display (t : Timestamp) : Text :=
  let fields := [t.date.year, t.date.month, t.date.day, t.hour, t.minute] ++
    (if t.second = 0 ∧ t.microsecond = 0 then [] else [t.second]) ++
    (if t.microsecond = 0 then [] else [t.microsecond])
  let zone : Text :=
    match t.offset with
    | none => []
    | some 0 => ", tzinfo=datetime.timezone.utc"
    | some m => ", tzinfo=datetime.timezone(" ++ displayMinutes m ++ ")"
  "datetime.datetime(" ++ Text.join ", " (fields.map Text.ofNat) ++ zone ++ ")"

def CalendarFault.message : CalendarFault → Text
  | .year y => "year " ++ Text.ofNat y ++ " is out of range"
  | .month => "month must be in 1..12"
  | .day => "day is out of range for month"
  | .hour => "hour must be in 0..23"
  | .minute => "minute must be in 0..59"
  | .second => "second must be in 0..59"
  | .offset m =>
    "offset must be a timedelta strictly between -timedelta(hours=24) and timedelta(hours=24), not " ++
      displayMinutes m ++ "."

end SchemaGraft
