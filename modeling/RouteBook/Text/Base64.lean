/-! Bytes written in base 64, read leniently: characters outside of the alphabet are skipped, and
what follows a full padding is not read. -/
namespace RouteBook.Text.Base64

def digit? (c : Char) : Option Nat :=
  if 'A' ≤ c && c ≤ 'Z' then some (c.toNat - 65)
  else if 'a' ≤ c && c ≤ 'z' then some (c.toNat - 71)
  else if '0' ≤ c && c ≤ '9' then some (c.toNat + 4)
  else if c == '+' then some 62
  else if c == '/' then some 63
  else none

/-- The digits before the end, where `place` of the last four are open and `pads` padding marks
stand after them. Nothing if the padding falls short. -/
def digits? (place pads : Nat) : List Char → Option (List Nat)
  | [] => if place = 0 then some [] else none
  | c :: rest =>
    if c == '=' then
      if 2 ≤ place then
        if 4 ≤ place + pads + 1 then some [] else digits? place (pads + 1) rest
      else digits? place pads rest
    else match digit? c with
      | some d => (digits? ((place + 1) % 4) 0 rest).map (d :: ·)
      | none => digits? place pads rest

/-- The bytes of some digits; what is over after the last whole byte is dropped. -/
def bytes : List Nat → List UInt8
  | a :: b :: c :: d :: rest =>
    [a * 4 + b / 16, b * 16 + c / 4, c * 64 + d].map UInt8.ofNat ++ bytes rest
  | [a, b, c] => [a * 4 + b / 16, b * 16 + c / 4].map UInt8.ofNat
  | [a, b] => [UInt8.ofNat (a * 4 + b / 16)]
  | _ => []

def decode? (s : List Char) : Option (List UInt8) := (digits? 0 0 s).map bytes

end RouteBook.Text.Base64
