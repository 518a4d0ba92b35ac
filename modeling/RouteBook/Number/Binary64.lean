/-! Double-precision numbers as integers: a finite one is `± mantissa · 2 ^ exponent`, and the
number nearest to a fraction is found by exact arithmetic, a tie going to the even mantissa. -/
namespace RouteBook.Number

def twoPow (n : Nat) : Nat := Nat.pow 2 n

def tenPow (n : Nat) : Nat := Nat.pow 10 n

/-- A finite double without its sign. -/
structure Binary64 where
  mantissa : Nat
  exponent : Int
deriving Repr, DecidableEq

inductive Shape where
  | nan
  | infinite (negative : Bool)
  | finite (negative : Bool) (value : Binary64)
deriving Repr, DecidableEq

def shape (x : Float) : Shape :=
  let bits := x.toBits.toNat
  let negative := bits / twoPow 63 == 1
  let field : Nat := bits / twoPow 52 % twoPow 11
  let fraction := bits % twoPow 52
  if field = 2047 then if fraction = 0 then .infinite negative else .nan
  else if field = 0 then .finite negative ⟨fraction, -1074⟩
  else .finite negative ⟨fraction + twoPow 52, (field : Int) - 1075⟩

/-- A quotient rounded to the nearest natural number, a tie to the even one. -/
def roundDiv (num den : Nat) : Nat :=
  let q := num / den
  let r := num % den
  if 2 * r < den then q
  else if den < 2 * r then q + 1
  else if q % 2 = 0 then q else q + 1

def scale (num den : Nat) (e : Int) : Nat × Nat :=
  if 0 ≤ e then (num * twoPow e.toNat, den) else (num, den * twoPow (-e).toNat)

/-- The exponent of the greatest power of two that is at most a positive fraction. -/
def floorLog2 (num den : Nat) : Int :=
  let l : Int := (Nat.log2 num : Int) - Nat.log2 den
  let (n, d) := scale num den (-l)
  if n < d then l - 1 else l

/-- The double nearest to a fraction; infinite when it is beyond the greatest one. -/
def nearest (negative : Bool) (num den : Nat) : Float :=
  let sign : Nat := if negative then twoPow 63 else 0
  let magnitude : Nat :=
    if num = 0 then 0
    else
      let q := max (-1074) (floorLog2 num den - 52)
      let (n, d) := scale num den (-q)
      let m := roundDiv n d
      let (m, q) := if m = twoPow 53 then (twoPow 52, q + 1) else (m, q)
      if 971 < q then 2047 * twoPow 52
      else if m < twoPow 52 then m
      else (q + 1075).toNat * twoPow 52 + (m - twoPow 52)
  Float.ofBits (UInt64.ofNat (sign + magnitude))

/-- The double nearest to `digits · 10 ^ e`. Exponents far outside the range are cut off first,
which changes nothing. -/
def ofDecimal (negative : Bool) (digits : Nat) (e : Int) : Float :=
  let width : Int := (Nat.toDigits 10 digits).length
  if digits = 0 ∨ width + e < -400 then nearest negative 0 1
  else if 400 < width + e then nearest negative (twoPow 2000) 1
  else if 0 ≤ e then nearest negative (digits * tenPow e.toNat) 1
  else nearest negative digits (tenPow (-e).toNat)

/-- The integer that a double equals, if it equals one. -/
def toInt? (x : Float) : Option Int :=
  match shape x with
  | .finite negative ⟨m, e⟩ =>
    let n? : Option Nat :=
      if 0 ≤ e then some (m * twoPow e.toNat)
      else if m % twoPow (-e).toNat = 0 then some (m / twoPow (-e).toNat)
      else none
    n?.map fun n => if negative then -(n : Int) else n
  | _ => none

end RouteBook.Number
