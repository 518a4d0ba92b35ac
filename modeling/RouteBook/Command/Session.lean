import RouteBook.Check
import RouteBook.Command.Request
import RouteBook.Config.Load
import RouteBook.Extraction

/-! A run of the program: files and what has been printed. -/
namespace RouteBook.Command

inductive Halt where
  | refused (r : Refusal)
  | config (e : Config.LoadFault)
  | glob (e : GlobError)
  | extraction (e : Extraction.Failure)
  | check (e : Check.Fault)
  | file (e : FileError)
deriving Repr, DecidableEq

def isReported : Config.LoadFault → Bool
  | .yaml _ .malformed | .notMapping _ _ | .invalid _ => true
  | _ => false

namespace Halt

/-- What the user is told, if the end was foreseen. -/
def report? : Halt → Option String
  | refused (.usage e) => some ("Error: " ++ e.message)
  | refused .overview => some overviewText
  | config e => if isReported e then some ("Error: " ++ e.message) else none
  | extraction e => e.message?.map ("Error: " ++ ·)
  | _ => none

def isFault : Halt → Bool
  | refused (.help _) => false
  | h => h.report?.isNone

def exitCode : Halt → Nat
  | refused (.help _) => 0
  | refused (.usage _) | refused .overview => 2
  | _ => 1

end Halt

structure Session where
  files : FileSystem
  output : String := ""
  errors : String := ""

abbrev Run := ExceptT Halt (StateM Session)

def controlLength? : List Char → Option Nat
  | '\x1b' :: '[' :: rest =>
    let numbers := rest.takeWhile fun c => c.isDigit || c == ';' || c == '?'
    match rest.drop numbers.length with
    | c :: _ => if c.isAlpha then some (numbers.length + 3) else none
    | [] => none
  | _ => none

/-- A text without terminal control sequences; the first `skip` characters belong to one. -/
def withoutControls (skip : Nat) : List Char → List Char
  | [] => []
  | c :: rest => match skip with
    | skip + 1 => withoutControls skip rest
    | 0 => match controlLength? (c :: rest) with
      | some n => withoutControls (n - 1) rest
      | none => c :: withoutControls 0 rest

def printed (line : String) : String :=
  String.ofList (withoutControls 0 line.toList) ++ "\n"

namespace Run

def print (line : String) : Run Unit :=
  modify fun s => { s with output := s.output ++ printed line }

def printError (line : String) : Run Unit :=
  modify fun s => { s with errors := s.errors ++ printed line }

/-- Prints the records of at least some level. -/
def log (level : LogLevel) (records : List LogRecord) : Run Unit :=
  modify fun s =>
    let shown := records.filter fun r => level.rank ≤ r.level.rank
    { s with errors := s.errors ++ String.join (shown.map fun r => r.line ++ "\n") }

def ofExcept {ε α : Type} (halt : ε → Halt) : Except ε α → Run α
  | .ok a => pure a
  | .error e => throw (halt e)

end Run

end RouteBook.Command
