import RouteBook.Yaml.Error

/-! The tokens of a YAML text. -/
namespace RouteBook.Yaml

inductive Directive where
  | version (major minor : Nat)
  | tag (handle uri : String)
  | other
deriving Repr, DecidableEq

inductive Token where
  | directive (d : Directive)
  | documentStart
  | documentEnd
  | streamEnd
  | blockSequenceStart
  | blockMappingStart
  | blockEnd
  | flowSequenceStart
  | flowSequenceEnd
  | flowMappingStart
  | flowMappingEnd
  | blockEntry
  | flowEntry
  | key
  | value
  | alias (name : String)
  | anchor (name : String)
  | tag (handle : Option String) (suffix : String)
  | scalar (text : String) (bare : Bool)
  /-- A quoted scalar with halves of surrogate pairs in it. -/
  | halves (codes : List Nat)
  /-- From here on the text cannot be cut into tokens. -/
  | fault (e : LoadError)
deriving Repr, DecidableEq

def Token.ofCodes (codes : List Nat) : Token :=
  if codes.all Nat.isValidChar then .scalar (String.ofList (codes.map Char.ofNat)) false
  else .halves codes

end RouteBook.Yaml
