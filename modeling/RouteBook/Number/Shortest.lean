import RouteBook.Number.Binary64

/-! The shortest decimal that reads back as a given double, and its text. For each number of
digits the two neighbours of the value on that decimal grid are tried, so the first hit has the
fewest digits; of two hits the nearer is taken. -/
namespace RouteBook.Number

/-- A decimal `digits · 10 ^ exponent`. -/
structure Decimal where
  digits : Nat
  exponent : Int
deriving Repr, DecidableEq

/-- The value and the ends of the interval that rounds to it, as multiples of one fraction
`num / den`. The lower end is nearer when the mantissa is the least of its binade. -/
structure Interval where
  low : Nat
  value : Nat
  high : Nat
  num : Nat
  den : Nat
  closed : Bool

def Binary64.interval (v : Binary64) : Interval :=
  let low := if v.mantissa = twoPow 52 ∧ -1074 < v.exponent then 1 else 2
  let (num, den) := scale 1 1 (v.exponent - 2)
  { low := 4 * v.mantissa - low, value := 4 * v.mantissa, high := 4 * v.mantissa + 2,
    num, den, closed := v.mantissa % 2 = 0 }

def scaleTen (num den : Nat) (e : Int) : Nat × Nat :=
  if 0 ≤ e then (num * tenPow e.toNat, den) else (num, den * tenPow (-e).toNat)

/-- The exponent of the greatest power of ten that is at most a positive fraction. -/
def floorLog10 (num den : Nat) : Int :=
  let guess : Int := Int.fdiv (((Nat.log2 num : Int) - Nat.log2 den - 1) * 30103) 100000
  let step (k : Int) : Int :=
    let (n, d) := scaleTen num den (-(k + 1))
    if d ≤ n then k + 1 else k
  step (step (step (guess - 1)))

/-- The best decimal with `n` digits, if one of the two neighbours reads back. -/
def Interval.withDigits? (i : Interval) (k : Int) (n : Nat) : Option Decimal :=
  let e := k + 1 - n
  let (num, den) := scaleTen i.num i.den (-e)
  let below := i.value * num / den
  let inside (c : Nat) : Bool :=
    if i.closed then i.low * num ≤ c * den && c * den ≤ i.high * num
    else i.low * num < c * den && c * den < i.high * num
  let above := below + 1
  match inside below, inside above with
  | true, true =>
    let down := i.value * num - below * den
    let up := above * den - i.value * num
    some ⟨if down < up ∨ (down = up ∧ below % 2 = 0) then below else above, e⟩
  | true, false => some ⟨below, e⟩
  | false, true => some ⟨above, e⟩
  | false, false => none

def Binary64.shortest (v : Binary64) : Decimal :=
  let i := v.interval
  let k := floorLog10 (i.value * i.num) i.den
  ((List.range 17).findSome? fun n => i.withDigits? k (n + 1)).getD ⟨0, 0⟩

/-- The digits of a number without trailing zeros, and how many were dropped. -/
def significant (n : Nat) : List Char × Nat :=
  let digits := (Nat.toDigits 10 n).reverse
  let kept := digits.dropWhile (· == '0')
  (kept.reverse, digits.length - kept.length)

/-- The text of a decimal: positional from four zeros after the point up to sixteen digits before
it, with an exponent of at least two digits elsewhere. A whole number keeps its `.0`. -/
def Decimal.render (d : Decimal) : List Char :=
  let (digits, dropped) := significant d.digits
  let point : Int := digits.length + (d.exponent + dropped)
  if digits.isEmpty then ['0', '.', '0']
  else if point ≤ -4 ∨ 16 < point then
    let e := point - 1
    let mantissa := match digits with
      | [] => []
      | [c] => [c]
      | c :: rest => c :: '.' :: rest
    let width := Nat.toDigits 10 e.natAbs
    mantissa ++ ['e', if e < 0 then '-' else '+'] ++
      (if width.length < 2 then '0' :: width else width)
  else if point ≤ 0 then ['0', '.'] ++ List.replicate (-point).toNat '0' ++ digits
  else if point.toNat < digits.length then
    digits.take point.toNat ++ '.' :: digits.drop point.toNat
  else digits ++ List.replicate (point.toNat - digits.length) '0' ++ ['.', '0']

structure Specials where
  nan : String
  infinite : String
  negativeInfinite : String

def renderFloat (words : Specials) (x : Float) : String :=
  match shape x with
  | .nan => words.nan
  | .infinite false => words.infinite
  | .infinite true => words.negativeInfinite
  | .finite negative v =>
    String.ofList ((if negative then ['-'] else []) ++ v.shortest.render)

end RouteBook.Number
