import RouteBook.Pairs
import RouteBook.Text.Printable
import RouteBook.Text.Similar

/-! Command lines: options by name, operands by place. -/
namespace RouteBook.Command

inductive UsageError where
  | noSuchOption (name : String) (near : List String)
  | valueMissing (name : String)
  | valueRefused (name : String)
  | operandMissing (label : String)
  | operandsLeft (args : List String)
  | notAmong (label value : String) (choices : List String)
  | notNumber (label value : String)
  | belowOne (label : String) (number : Int)
  | noDirectory (label value : String)
  | isFile (label value : String)
  | commandMissing
  | noSuchCommand (name : String) (near : List String)
deriving Repr, DecidableEq

def invalidValue (label reason : String) : String :=
  "Invalid value for " ++ label ++ ": " ++ reason

def suggestion : List String → String
  | [] => ""
  | [name] => " Did you mean " ++ Text.quoted name ++ "?"
  | names => " (Did you mean one of: " ++ ", ".intercalate (names.map Text.quoted) ++ "?)"

def UsageError.message : UsageError → String
  | noSuchOption name near => "No such option " ++ Text.quoted name ++ "." ++ suggestion near
  | valueMissing name => "Option " ++ Text.quoted name ++ " requires an argument."
  | valueRefused name => "Option " ++ Text.quoted name ++ " does not take a value."
  | operandMissing label => "Missing argument " ++ label ++ "."
  | operandsLeft args =>
    "Got unexpected extra argument" ++ (if args.length = 1 then "" else "s") ++ " (" ++
      " ".intercalate args ++ ")"
  | notAmong label value choices => invalidValue label
    (Text.quoted value ++ " is not one of " ++ ", ".intercalate (choices.map Text.quoted) ++ ".")
  | notNumber label value =>
    invalidValue label (Text.quoted value ++ " is not a valid integer range.")
  | belowOne label number => invalidValue label (toString number ++ " is not in the range x>=1.")
  | noDirectory label value =>
    invalidValue label ("Directory " ++ Text.quoted value ++ " does not exist.")
  | isFile label value => invalidValue label ("Directory " ++ Text.quoted value ++ " is a file.")
  | commandMissing => "Missing command."
  | noSuchCommand name near => "No such command " ++ Text.quoted name ++ "." ++ suggestion near

structure OptionName (κ : Type) where
  key : κ
  name : String
  fixed? : Option String := none

variable {κ : Type}

def OptionName.isLong (o : OptionName κ) : Bool := 2 < o.name.length

structure Arguments (κ : Type) where
  options : List (κ × String) := []
  operands : List String := []

/-- What one argument sets, and the option, with the name used for it, that still waits for its
value. -/
structure Reading (κ : Type) where
  set : List (κ × String) := []
  waiting? : Option (κ × String) := none

/-- The letters after a single dash: options one after the other, or one with its value. -/
def readLetters (options : List (OptionName κ)) : List Char → Except UsageError (Reading κ)
  | [] => .ok {}
  | c :: rest =>
    let name := String.ofList ['-', c]
    match options.find? (·.name == name) with
    | none => .error (.noSuchOption name [])
    | some o => match o.fixed? with
      | some value => do
        let more ← readLetters options rest
        return { more with set := (o.key, value) :: more.set }
      | none =>
        if rest.isEmpty then .ok { waiting? := some (o.key, name) }
        else .ok { set := [(o.key, String.ofList rest)] }

def cutValue (arg : List Char) : List Char × Option (List Char) :=
  let name := arg.takeWhile (· != '=')
  match arg.drop name.length with
  | _ :: value => (name, some value)
  | [] => (name, none)

def readOption (options : List (OptionName κ)) (arg : String) : Except UsageError (Reading κ) :=
  let (nameChars, value?) := cutValue arg.toList
  let name := String.ofList nameChars
  match options.find? (fun o => o.isLong && o.name == name) with
  | some o => match o.fixed?, value? with
    | none, some value => .ok { set := [(o.key, String.ofList value)] }
    | none, none => .ok { waiting? := some (o.key, name) }
    | some value, none => .ok { set := [(o.key, value)] }
    | some _, some _ => .error (.valueRefused name)
  | none => match arg.toList with
    | '-' :: '-' :: _ =>
      .error (.noSuchOption name
        (Text.nearest name ((options.filter (·.isLong)).map (·.name))))
    | chars => readLetters options chars.tail

def isOption (arg : String) : Bool := arg.startsWith "-" && 1 < arg.length

/-- Reads a command line. Two dashes end the options; unless operands may stand between options,
so does the first operand. -/
def readArguments (options : List (OptionName κ)) (mixed : Bool) :
    List String → Except UsageError (Arguments κ)
  | [] => .ok {}
  | arg :: rest =>
    if arg == "--" then .ok { operands := rest }
    else if isOption arg then
      match readOption options arg with
      | .error e => .error e
      | .ok ⟨set, none⟩ => do
        let more ← readArguments options mixed rest
        return { more with options := set ++ more.options }
      | .ok ⟨set, some (key, name)⟩ => match rest with
        | [] => .error (.valueMissing name)
        | value :: rest => do
          let more ← readArguments options mixed rest
          return { more with options := set ++ (key, value) :: more.options }
    else if mixed then do
      let more ← readArguments options mixed rest
      return { more with operands := arg :: more.operands }
    else .ok { operands := arg :: rest }

/-- Each option once: where it was first met, with the value that it was given last. -/
def Arguments.settled [BEq κ] (a : Arguments κ) : List (κ × String) := Pairs.ofList a.options

def label [BEq κ] (options : List (OptionName κ)) (key : κ) : String :=
  " / ".intercalate ((options.filter (·.key == key)).map fun o => "'" ++ o.name ++ "'")

end RouteBook.Command
