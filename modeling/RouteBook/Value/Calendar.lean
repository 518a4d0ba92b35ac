/-! Calendar days and times of day, as far as data files name them. -/
namespace RouteBook

structure Date where
  year : Nat
  month : Nat
  day : Nat
deriving Repr, DecidableEq

/-- A time on a day; `offset` is the distance from universal time in minutes, if one is known. -/
structure DateTime where
  date : Date
  hour : Nat
  minute : Nat
  second : Nat
  microsecond : Nat
  offset : Option Int
deriving Repr, DecidableEq

namespace Date

def isLeap (year : Nat) : Bool := year % 4 == 0 && (year % 100 != 0 || year % 400 == 0)

def daysInMonth (year month : Nat) : Nat :=
  if month = 2 then if isLeap year then 29 else 28
  else if month = 4 ∨ month = 6 ∨ month = 9 ∨ month = 11 then 30
  else 31

/-- The day with these numbers, if the calendar has it. -/
def ofNumbers? (year month day : Nat) : Option Date :=
  if 1 ≤ year ∧ year ≤ 9999 ∧ 1 ≤ month ∧ month ≤ 12 ∧ 1 ≤ day ∧ day ≤ daysInMonth year month then
    some ⟨year, month, day⟩
  else none

def ordinal (d : Date) : Nat :=
  let y := d.year - 1
  y * 365 + y / 4 - y / 100 + y / 400 +
    (List.range (d.month - 1)).foldl (fun n m => n + daysInMonth d.year (m + 1)) 0 + d.day

def padded (width n : Nat) : String :=
  let digits := Nat.toDigits 10 n
  String.ofList (List.replicate (width - digits.length) '0' ++ digits)

def render (d : Date) : String :=
  padded 4 d.year ++ "-" ++ padded 2 d.month ++ "-" ++ padded 2 d.day

end Date

namespace DateTime

/-- Universal time from the seconds since the start of 1970. Years are counted from March on, so
that the leap day ends them, and in eras of 400 years. -/
def ofUnixSeconds (seconds : Nat) : DateTime :=
  let days := seconds / 86400 + 719468
  let (era, dayOfEra) := (days / 146097, days % 146097)
  let year := (dayOfEra - dayOfEra / 1460 + dayOfEra / 36524 - dayOfEra / 146096) / 365
  let dayOfYear := dayOfEra - (365 * year + year / 4 - year / 100)
  let fromMarch := (5 * dayOfYear + 2) / 153
  let month := if fromMarch < 10 then fromMarch + 3 else fromMarch - 9
  { date := {
      year := year + era * 400 + (if month ≤ 2 then 1 else 0)
      month
      day := dayOfYear - (153 * fromMarch + 2) / 5 + 1 }
    hour := seconds / 3600 % 24
    minute := seconds / 60 % 60
    second := seconds % 60
    microsecond := 0
    offset := some 0 }

def instant (t : DateTime) : Int :=
  ((((t.date.ordinal * 24 + t.hour) * 60 + t.minute : Nat) : Int) - t.offset.getD 0) * 60000000 +
    (t.second * 1000000 + t.microsecond : Nat)

/-- Whether two times are the same moment; a known zone never equals an unknown one. -/
def same (s t : DateTime) : Bool :=
  s.offset.isSome == t.offset.isSome && s.instant == t.instant

def render (t : DateTime) : String :=
  t.date.render ++ "T" ++ Date.padded 2 t.hour ++ ":" ++ Date.padded 2 t.minute ++ ":" ++
    Date.padded 2 t.second ++
    (if t.microsecond = 0 then "" else "." ++ Date.padded 6 t.microsecond) ++
    (match t.offset with
      | none => ""
      | some m => (if m < 0 then "-" else "+") ++ Date.padded 2 (m.natAbs / 60) ++ ":" ++
          Date.padded 2 (m.natAbs % 60))

end DateTime

end RouteBook
