import RouteBook.Number.Binary64
import RouteBook.Value.Calendar

/-! The values that data files hold. A mapping keeps the order in which its keys first came; keys
that are numerically equal are one key, truth values counting as zero and one. -/
namespace RouteBook

inductive Value where
  | null
  | bool (b : Bool)
  | int (n : Int)
  | float (x : Float)
  | str (s : String)
  /-- Code points with halves of surrogate pairs among them, which are no Unicode text. -/
  | halves (codes : List Nat)
  | bytes (data : List UInt8)
  | date (d : Date)
  | datetime (t : DateTime)
  | list (items : List Value)
  | tuple (items : List Value)
  | set (items : List Value)
  | map (entries : List (Value × Value))
  /-- A reference from inside a collection to the collection itself. -/
  | cycle
deriving Repr, Inhabited

namespace Value

def kindName : Value → String
  | null => "null"
  | bool _ => "bool"
  | int _ => "int"
  | float _ => "float"
  | str _ => "str"
  | halves _ => "str"
  | bytes _ => "bytes"
  | date _ => "date"
  | datetime _ => "datetime"
  | list _ => "list"
  | tuple _ => "tuple"
  | set _ => "set"
  | map _ => "mapping"
  | cycle => "list"

def isKey : Value → Bool
  | list _ | set _ | map _ | cycle => false
  | _ => true

def wholeNumber? : Value → Option Int
  | bool b => some (if b then 1 else 0)
  | int n => some n
  | float x => Number.toInt? x
  | _ => none

mutual
def sameKey : Value → Value → Bool
  | null, null => true
  | str s, str t => s == t
  | halves s, halves t => s == t
  | bytes s, bytes t => s == t
  | date s, date t => s == t
  | datetime s, datetime t => s.same t
  | tuple s, tuple t => sameKeys s t
  | float x, float y => x == y || (x.isNaN && y.isNaN)
  | v, w =>
    match v.wholeNumber?, w.wholeNumber? with
    | some m, some n => m == n
    | _, _ => false
def sameKeys : List Value → List Value → Bool
  | [], [] => true
  | v :: vs, w :: ws => sameKey v w && sameKeys vs ws
  | _, _ => false
end

instance : BEq Value := ⟨sameKey⟩

end Value

end RouteBook
