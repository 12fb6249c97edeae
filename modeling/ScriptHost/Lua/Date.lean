import ScriptHost.Decimal.Layout
import ScriptHost.Text.Utf8

/-!
# Dates

Times as seconds, the dates of the Gregorian calendar that they fall on, and texts for them. All
dates are those of Coordinated Universal Time.
-/

set_option autoImplicit false

namespace ScriptHost.Lua

/-- A second of a day. Months and days count from one, days of the week and of the year from
zero. -/
structure Date where
  year : Int
  month : Nat
  day : Nat
  hour : Nat
  minute : Nat
  second : Nat
  weekday : Nat
  yearday : Nat
deriving DecidableEq, Repr

namespace Date

/-- The days from the start of the year 1970 to a day of a month. Years are taken to start in
March, and four hundred of them always have the same number of days. -/
def dayNumber (year month day : Int) : Int :=
  let months := month - 3
  let year := year + months / 12
  let day := (153 * (months % 12) + 2) / 5 + day - 1
  let ofEra := year % 400
  146097 * (year / 400) + (365 * ofEra + ofEra / 4 - ofEra / 100 + day) - 719468

/-- The year, the month and the day of the month. -/
def ofDayNumber (days : Int) : Int × Nat × Nat :=
  let days := days + 719468
  let ofEra := days % 146097
  let year := (ofEra - ofEra / 1460 + ofEra / 36524 - ofEra / 146096) / 365
  let ofYear := ofEra - (365 * year + year / 4 - year / 100)
  let month := (5 * ofYear + 2) / 153
  let day := ofYear - (153 * month + 2) / 5 + 1
  let year := year + 400 * (days / 146097)
  if month < 10 then (year, (month + 3).toNat, day.toNat)
  else (year + 1, (month - 9).toNat, day.toNat)

/-- The second after the start of the year 1970. Whatever is beyond a day, a month or a year
counts on. -/
def secondsAt (year month day hour minute second : Int) : Int :=
  86400 * dayNumber year month day + 3600 * hour + 60 * minute + second

def ofSeconds (t : Int) : Date :=
  let days := t / 86400
  let second := (t % 86400).toNat
  let (year, month, day) := ofDayNumber days
  { year, month, day, hour := second / 3600, minute := second / 60 % 60, second := second % 60
    weekday := ((days + 4) % 7).toNat, yearday := (days - dayNumber year 1 1).toNat }

/-- Whether the year of a date fits into what a date is kept in. -/
def isRepresentable (d : Date) : Bool := -2 ^ 31 ≤ d.year - 1900 && d.year - 1900 < 2 ^ 31

/-! ## Texts -/

def weekdays : List String :=
  ["Sunday", "Monday", "Tuesday", "Wednesday", "Thursday", "Friday", "Saturday"]

def months : List String :=
  ["January", "February", "March", "April", "May", "June", "July", "August", "September",
    "October", "November", "December"]

/-- A number with at least so many characters. -/
def filled (fill : Char) (width : Nat) (n : Int) : String :=
  let digits := toString n.natAbs
  let sign := if n < 0 then "-" else ""
  sign ++ String.ofList (List.replicate (width - sign.length - digits.length) fill) ++ digits

def twoDigits (n : Int) : String := filled '0' 2 n

/-- The year and the week that a day counts to if weeks start on Monday and belong to the year in
which most of their days are. -/
def isoWeek (d : Date) : Int × Nat :=
  let thursday := (d.yearday : Int) + 3 - ((d.weekday + 6) % 7 : Nat)
  let start := dayNumber d.year 1 1
  let (year, _) := ofDayNumber (start + thursday)
  (year, ((start + thursday - dayNumber year 1 1) / 7 + 1).toNat)

def clockHour (d : Date) : Nat := if d.hour % 12 = 0 then 12 else d.hour % 12

/-- The text for a letter, if there is one; `zone` is the name of the time zone. -/
def conversion? (zone : String) (d : Date) (letter : Char) : Option String :=
  let day := weekdays.getD d.weekday "?"
  let month := months.getD (d.month - 1) "?"
  let date := s!"{twoDigits d.month}/{twoDigits d.day}/{twoDigits (d.year % 100)}"
  let minutes := s!"{twoDigits d.hour}:{twoDigits d.minute}"
  let time := s!"{minutes}:{twoDigits d.second}"
  let half := if d.hour < 12 then "AM" else "PM"
  match letter with
  | 'a' => some (String.ofList (day.toList.take 3))
  | 'A' => some day
  | 'b' | 'h' => some (String.ofList (month.toList.take 3))
  | 'B' => some month
  | 'c' =>
    let names := String.ofList (day.toList.take 3 ++ ' ' :: month.toList.take 3)
    let dayOfMonth := filled ' ' 2 d.day
    some s!"{names} {dayOfMonth} {time} {d.year}"
  | 'C' => some (twoDigits (d.year / 100))
  | 'd' => some (twoDigits d.day)
  | 'D' | 'x' => some date
  | 'e' => some (filled ' ' 2 d.day)
  | 'F' => some s!"{d.year}-{twoDigits d.month}-{twoDigits d.day}"
  | 'g' => some (twoDigits (d.isoWeek.1 % 100))
  | 'G' => some (toString d.isoWeek.1)
  | 'H' => some (twoDigits d.hour)
  | 'I' => some (twoDigits d.clockHour)
  | 'j' => some (filled '0' 3 (d.yearday + 1 : Nat))
  | 'm' => some (twoDigits d.month)
  | 'M' => some (twoDigits d.minute)
  | 'n' => some "\n"
  | 'p' => some half
  | 'r' => some s!"{twoDigits d.clockHour}:{twoDigits d.minute}:{twoDigits d.second} {half}"
  | 'R' => some minutes
  | 'S' => some (twoDigits d.second)
  | 't' => some "\t"
  | 'T' | 'X' => some time
  | 'u' => some (toString (if d.weekday = 0 then 7 else d.weekday))
  | 'U' => some (twoDigits ((d.yearday + 7 - d.weekday) / 7 : Nat))
  | 'V' => some (twoDigits d.isoWeek.2)
  | 'w' => some (toString d.weekday)
  | 'W' => some (twoDigits ((d.yearday + 7 - (d.weekday + 6) % 7) / 7 : Nat))
  | 'y' => some (twoDigits (d.year % 100))
  | 'Y' => some (toString d.year)
  | 'z' => some "+0000"
  | 'Z' => some zone
  | '%' => some "%"
  | _ => none

/-- The letters that may stand after an `E` and after an `O`. They mean the same as alone. -/
def modified (modifier : Char) : List Char :=
  match modifier with
  | 'E' => ['c', 'C', 'x', 'X', 'y', 'Y']
  | 'O' => ['d', 'e', 'H', 'I', 'm', 'M', 'S', 'u', 'U', 'V', 'w', 'W', 'y']
  | _ => []

/-- A format with the conversions in it filled in, or what comes after the first percent sign that
starts none. -/
def format (zone : String) (d : Date) : List UInt8 → Nat → Except (List UInt8) (List UInt8)
  | [], _ | _, 0 => .ok []
  | 37 :: rest, fuel + 1 => do
    let letter (b? : Option UInt8) : Char := (b?.map fun b => Char.ofNat b.toNat).getD ' '
    match d.conversion? zone (letter rest[0]?) with
    | some text => return Utf8.bytes text ++ (← format zone d (rest.drop 1) fuel)
    | none =>
      if (modified (letter rest[0]?)).contains (letter rest[1]?) then
        let text := (d.conversion? zone (letter rest[1]?)).getD ""
        return Utf8.bytes text ++ (← format zone d (rest.drop 2) fuel)
      else throw rest
  | b :: rest, fuel + 1 => do return b :: (← format zone d rest fuel)

end Date

end ScriptHost.Lua
