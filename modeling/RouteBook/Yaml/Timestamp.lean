import RouteBook.Value.Calendar

/-! Timestamps as data files write them. -/
namespace RouteBook.Yaml

structure Timestamp where
  year : Nat
  month : Nat
  day : Nat
  /-- Hour, minute and second. -/
  time : Option (Nat × Nat × Nat) := none
  fraction : List Char := []
  /-- Distance from universal time: sign, hours and minutes. -/
  zone : Option (Bool × Nat × Nat) := none
deriving Repr, DecidableEq

namespace Timestamp

def number (digits : List Char) : Nat := digits.foldl (fun n c => n * 10 + (c.toNat - 48)) 0

/-- Between `least` and `most` digits at the head of a text. -/
def digits? (least most : Nat) (s : List Char) : Option (List Char × List Char) :=
  let ds := (s.take most).takeWhile Char.isDigit
  if ds.length < least then none else some (ds, s.drop ds.length)

def skipBlanks (s : List Char) : List Char := s.dropWhile fun c => c == ' ' || c == '\t'

def zone? : List Char → Option (Option (Bool × Nat × Nat))
  | [] => some none
  | ['Z'] => some (some (false, 0, 0))
  | sign :: s => do
    if sign ≠ '+' ∧ sign ≠ '-' then none
    else
      let (hour, s) ← digits? 1 2 s
      let (minute, s) ← match s with
        | ':' :: t => digits? 2 2 t
        | _ => some ([], s)
      if s.isEmpty then some (some (sign == '-', number hour, number minute)) else none

def time? (t : Timestamp) (s : List Char) : Option Timestamp := do
  let (hour, s) ← digits? 1 2 s
  match s with
  | ':' :: s =>
    let (minute, s) ← digits? 2 2 s
    match s with
    | ':' :: s =>
      let (second, s) ← digits? 2 2 s
      let (fraction, s) := match s with
        | '.' :: s => (s.takeWhile Char.isDigit, s.dropWhile Char.isDigit)
        | s => ([], s)
      let zone ← match s with
        | [] => some none
        | s => match skipBlanks s with
          | [] => none
          | s => zone? s
      some { t with time := some (number hour, number minute, number second), fraction, zone }
    | _ => none
  | _ => none

def parse? (s : List Char) : Option Timestamp := do
  let (year, s) ← digits? 4 4 s
  match s with
  | '-' :: s =>
    let (month, s) ← digits? 1 2 s
    match s with
    | '-' :: s =>
      let (day, s) ← digits? 1 2 s
      let t : Timestamp := { year := number year, month := number month, day := number day }
      match s with
      | [] => some t
      | c :: rest =>
        if c = 'T' ∨ c = 't' then time? t rest
        else if c = ' ' ∨ c = '\t' then time? t (skipBlanks s)
        else none
    | _ => none
  | _ => none

/-- Whether a bare text is taken for a timestamp: a day without a time needs all ten
characters. -/
def isBare (s : List Char) : Bool :=
  match parse? s with
  | some t => t.time.isSome || s.length == 10
  | none => false

def microsecond (t : Timestamp) : Nat :=
  number ((t.fraction.take 6) ++ List.replicate (6 - t.fraction.length) '0')

def toDate? (t : Timestamp) : Option Date := Date.ofNumbers? t.year t.month t.day

/-- The time that is meant, if the calendar has it and the zone is less than a day away. -/
def toDateTime? (t : Timestamp) (hour minute second : Nat) : Option DateTime := do
  let date ← t.toDate?
  let offset ← match t.zone with
    | none => some none
    | some (negative, h, m) =>
      let minutes : Int := h * 60 + m
      if minutes < 1440 then some (some (if negative then -minutes else minutes)) else none
  if hour < 24 ∧ minute < 60 ∧ second < 60 then
    some { date, hour, minute, second, microsecond := t.microsecond, offset }
  else none

end Timestamp

end RouteBook.Yaml
