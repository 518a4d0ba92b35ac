import RouteBook.Number.Numeral
import RouteBook.Text.Base64
import RouteBook.Text.Case
import RouteBook.Value.Basic
import RouteBook.Yaml.Error
import RouteBook.Yaml.Node

/-! The value that a scalar has by its type. -/
namespace RouteBook.Yaml

namespace Scalar

def sixties (digits : List Int) : Int := digits.foldl (fun n d => n * 60 + d) 0

def number? (n : Option Int) : Except LoadError Int :=
  match n with
  | some n => .ok n
  | none => .error .badNumber

/-- The whole number that a text without sign denotes. -/
def natural (body : List Char) : Except LoadError Int :=
  match body with
  | [] => .error .emptyNumber
  | ['0'] => .ok 0
  | '0' :: 'b' :: s => number? (Number.readInt? 2 s)
  | '0' :: 'x' :: s => number? (Number.readInt? 16 s)
  | '0' :: _ => number? (Number.readInt? 8 body)
  | _ =>
    if body.contains ':' then
      number? ((Bare.splitColons body).mapM (Number.readInt? 10) |>.map sixties)
    else number? (Number.readInt? 10 body)

def int (text : List Char) : Except LoadError Int :=
  match text.filter (· != '_') with
  | [] => .error .emptyNumber
  | '-' :: s => (natural s).map (- ·)
  | '+' :: s => natural s
  | s => natural s

/-- The sum of parts, the last counting once and each before it sixty times more. What a part
counts must fit in a float. -/
def sixtiesFloat (parts : List Float) : Except LoadError Float := do
  let (sum, _) ← parts.reverse.foldlM (fun ((sum, weight) : Float × Nat) part =>
    if Number.twoPow 1024 ≤ weight then throw .escapeTooLarge
    else pure (sum + part * Number.ofDecimal false weight 0, weight * 60)) ((0.0 : Float), 1)
  return sum

def float? (x : Option Float) : Except LoadError Float :=
  match x with
  | some x => .ok x
  | none => .error .badNumber

/-- The number that a text without sign denotes, or its opposite. -/
def magnitude (opposite : Bool) (body : List Char) : Except LoadError Float :=
  if String.ofList body == ".inf" then
    .ok (Float.ofBits (if opposite then 0xfff0000000000000 else 0x7ff0000000000000))
  else if String.ofList body == ".nan" then .ok (Float.ofBits 0x7ff8000000000000)
  else if body.contains ':' then
    match (Bare.splitColons body).mapM Number.readFloat? with
    | some parts => (sixtiesFloat parts).map fun x => if opposite then -1.0 * x else x
    | none => .error .badNumber
  else float? (Number.readSigned? opposite body)

def float (text : List Char) : Except LoadError Float :=
  match (Text.lower (String.ofList text)).toList.filter (· != '_') with
  | [] => .error .emptyNumber
  | '-' :: s => magnitude true s
  | '+' :: s => magnitude false s
  | s => magnitude false s

def flag (text : String) : Except LoadError Bool :=
  let word := Text.lower text
  if ["yes", "true", "on"].contains word then .ok true
  else if ["no", "false", "off"].contains word then .ok false
  else .error .badFlag

def timestamp (text : List Char) : Except LoadError Value :=
  match Timestamp.parse? (Bare.dropLineEnd text) with
  | none => .error .badTimestamp
  | some t =>
    let value? := match t.time with
      | none => t.toDate?.map Value.date
      | some (h, m, s) => (t.toDateTime? h m s).map Value.datetime
    match value? with
    | some v => .ok v
    | none => .error .badNumber

def binary (text : List Char) : Except LoadError Value :=
  if text.all (·.toNat < 128) then
    match Text.Base64.decode? text with
    | some bytes => .ok (.bytes bytes)
    | none => .error .malformed
  else .error .malformed

def value (type : Tag) (text : String) : Except LoadError Value :=
  match type with
  | .scalar .str => .ok (.str text)
  | .scalar .null => .ok .null
  | .scalar .bool => (flag text).map .bool
  | .scalar .int => (int text.toList).map .int
  | .scalar .float => (float text.toList).map .float
  | .scalar .timestamp => timestamp text.toList
  | .binary => binary text.toList
  | _ => .error .malformed

def halves (type : Tag) (codes : List Nat) : Except LoadError Value :=
  match type with
  | .scalar .str => .ok (.halves codes)
  | .scalar .null => .ok .null
  | .scalar .bool => .error .badFlag
  | .scalar .int | .scalar .float => .error .badNumber
  | .scalar .timestamp => .error .badTimestamp
  | _ => .error .malformed

end Scalar

inductive Content where
  | text (s : String)
  /-- Code points with halves of surrogate pairs among them. -/
  | halves (codes : List Nat)
deriving Repr

def Content.value (type : Tag) : Content → Except LoadError Value
  | text s => Scalar.value type s
  | halves codes => Scalar.halves type codes

end RouteBook.Yaml
