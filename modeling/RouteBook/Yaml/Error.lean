/-! Why a YAML text cannot be loaded. -/
namespace RouteBook.Yaml

inductive LoadError where
  /-- The text breaks a rule of the format. -/
  | malformed
  /-- A scalar is no number, or names no day of the calendar; or a number has too many digits. -/
  | badNumber
  /-- A scalar that is said to be a number is empty. -/
  | emptyNumber
  /-- A scalar that is said to be a truth value is none of the known words. -/
  | badFlag
  /-- A node that is said to be a timestamp is none, or is a mapping. -/
  | badTimestamp
  /-- An escape is beyond the last code point. -/
  | escapeOutOfRange
  /-- An escape does not fit in 31 bits, what a digit in base sixty counts does not fit in a float,
  or a chain of value keys has no end. -/
  | escapeTooLarge
deriving Repr, DecidableEq

def LoadError.message : LoadError → String
  | malformed => "<yaml error>"
  | badNumber => "not a number or a date"
  | emptyNumber => "empty number"
  | badFlag => "not a truth value"
  | badTimestamp => "not a timestamp"
  | escapeOutOfRange => "chr() arg not in range(0x110000)"
  | escapeTooLarge => "escape too large"

end RouteBook.Yaml
