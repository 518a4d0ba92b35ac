import RouteBook.Text.Digit

/-! The text that a string literal denotes. Escapes are decoded into code points, which may be
halves of a surrogate pair; adjacent halves are then joined and lone ones replaced. -/
namespace RouteBook.Literal

inductive EscapeError where
  /-- The number is beyond the last code point. -/
  | outOfRange
  /-- The number does not fit in 31 bits. -/
  | tooLarge
deriving Repr, DecidableEq

/-- What a one-character escape stands for; any other character stands for itself. -/
def simpleEscape (c : Char) : List Nat :=
  match c with
  | 'n' => [10]
  | 't' => [9]
  | 'r' => [13]
  | 'b' => [8]
  | 'f' => [12]
  | 'v' => [11]
  | '0' => [0]
  | '\n' => []
  | _ => [c.toNat]

def codePoint (n : Nat) : Except EscapeError Nat :=
  if n < 0x110000 then .ok n
  else if n < 0x80000000 then .error .outOfRange
  else .error .tooLarge

/-- The escape at the head of a text, after its backslash: the number it names, if it is a
numeric one, and the rest. `\u{…}` takes any number of digits, `\u` four and `\x` two. -/
def numericEscape? : List Char → Option (Nat × List Char)
  | 'u' :: '{' :: s =>
    let digits := s.takeWhile Text.isHex
    match digits, s.drop digits.length with
    | _ :: _, '}' :: rest => some (Text.hexNumber digits, rest)
    | _, _ => none
  | 'u' :: a :: b :: c :: d :: rest =>
    if [a, b, c, d].all Text.isHex then some (Text.hexNumber [a, b, c, d], rest) else none
  | 'x' :: a :: b :: rest =>
    if [a, b].all Text.isHex then some (Text.hexNumber [a, b], rest) else none
  | _ => none

theorem numericEscape?_length {s : List Char} {n : Nat} {rest : List Char}
    (h : numericEscape? s = some (n, rest)) : rest.length < s.length := by
  unfold numericEscape? at h
  split at h
  · rename_i s'
    simp only at h
    split at h
    · rename_i hd
      obtain ⟨-, rfl⟩ := Prod.mk.inj (Option.some.inj h)
      have := congrArg List.length hd
      simp at this ⊢
      omega
    · simp at h
  · split at h
    · obtain ⟨-, rfl⟩ := Prod.mk.inj (Option.some.inj h); simp; omega
    · simp at h
  · split at h
    · obtain ⟨-, rfl⟩ := Prod.mk.inj (Option.some.inj h); simp; omega
    · simp at h
  · simp at h

/-- The code points that a literal's raw text denotes, halves of surrogate pairs included. A
backslash at the very end stands for itself. -/
def codePoints : List Char → Except EscapeError (List Nat)
  | [] => .ok []
  | ['\\'] => .ok ['\\'.toNat]
  | '\\' :: c :: s =>
    match _h : numericEscape? (c :: s) with
    | some (n, rest) => do
      let p ← codePoint n
      return p :: (← codePoints rest)
    | none => return simpleEscape c ++ (← codePoints s)
  | c :: s => return c.toNat :: (← codePoints s)
termination_by s => s.length
decreasing_by
  · have := numericEscape?_length _h
    simp only [List.length_cons] at this ⊢
    omega
  · simp only [List.length_cons]; omega
  · simp only [List.length_cons]; omega

def isHighSurrogate (n : Nat) : Bool := 0xD800 ≤ n && n < 0xDC00
def isLowSurrogate (n : Nat) : Bool := 0xDC00 ≤ n && n < 0xE000

def joinSurrogates : List Nat → List Char
  | [] => []
  | [n] => [if isHighSurrogate n || isLowSurrogate n then Char.ofNat 0xFFFD else Char.ofNat n]
  | n :: m :: rest =>
    if isHighSurrogate n && isLowSurrogate m then
      Char.ofNat (0x10000 + (n - 0xD800) * 0x400 + (m - 0xDC00)) :: joinSurrogates rest
    else if isHighSurrogate n || isLowSurrogate n then
      Char.ofNat 0xFFFD :: joinSurrogates (m :: rest)
    else Char.ofNat n :: joinSurrogates (m :: rest)

def decode (raw : List Char) : Except EscapeError (List Char) :=
  joinSurrogates <$> codePoints raw

end RouteBook.Literal
