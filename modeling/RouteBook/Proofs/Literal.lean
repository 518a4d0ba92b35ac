import RouteBook.Literal
import RouteBook.Proofs.Except

/-! When a literal cannot be decoded: the first number beyond the last code point decides. -/
namespace RouteBook.Literal
open Outcome

/-- The numbers that the numeric escapes of a raw text name, from left to right. -/
def escapeNumbers : List Char → List Nat
  | [] => []
  | '\\' :: c :: s =>
    match _h : numericEscape? (c :: s) with
    | some (n, rest) => n :: escapeNumbers rest
    | none => escapeNumbers s
  | _ :: s => escapeNumbers s
termination_by s => s.length
decreasing_by
  · have := numericEscape?_length _h
    simp only [List.length_cons] at this ⊢
    omega
  · simp only [List.length_cons]; omega
  · simp only [List.length_cons]; omega

def lastCodePoint : Nat := 0x10FFFF

def EscapeError.ofNumber (n : Nat) : EscapeError :=
  if n < 0x80000000 then .outOfRange else .tooLarge

/-- The fault of a row of numbers: that of the first one beyond the last code point. -/
def fault? (numbers : List Nat) : Option EscapeError :=
  (numbers.find? (lastCodePoint < ·)).map .ofNumber

theorem fault?_append (ns ms : List Nat) : fault? (ns ++ ms) = (fault? ns).or (fault? ms) := by
  simp only [fault?, List.find?_append]
  cases ns.find? (lastCodePoint < ·) <;> rfl

theorem codePoint_of_le {n : Nat} (h : n ≤ lastCodePoint) : codePoint n = .ok n := by
  have hn : n < 0x110000 := by simp only [lastCodePoint] at h; omega
  rw [codePoint, if_pos hn]

theorem codePoint_of_lt {n : Nat} (h : lastCodePoint < n) :
    codePoint n = .error (.ofNumber n) := by
  have hn : ¬ n < 0x110000 := by simp only [lastCodePoint] at h; omega
  rw [codePoint, if_neg hn, EscapeError.ofNumber]
  by_cases hb : n < 0x80000000
  · rw [if_pos hb, if_pos (by omega)]
  · rw [if_neg hb, if_neg (by omega)]

theorem escapeNumbers_numeric {c : Char} {s rest : List Char} {n : Nat}
    (h : numericEscape? (c :: s) = some (n, rest)) :
    escapeNumbers ('\\' :: c :: s) = n :: escapeNumbers rest := by
  rw [escapeNumbers]
  split <;> simp_all

theorem escapeNumbers_simple {c : Char} {s : List Char} (h : numericEscape? (c :: s) = none) :
    escapeNumbers ('\\' :: c :: s) = escapeNumbers s := by
  rw [escapeNumbers]
  split <;> simp_all

theorem fault?_cons_of_le {n : Nat} (ns : List Nat) (h : n ≤ lastCodePoint) :
    fault? (n :: ns) = fault? ns := by
  simp [fault?, Nat.not_lt.mpr h]

theorem fault?_cons_of_lt {n : Nat} (ns : List Nat) (h : lastCodePoint < n) :
    fault? (n :: ns) = some (.ofNumber n) := by
  simp [fault?, h]

theorem codePoints_error_iff (s : List Char) (e : EscapeError) :
    codePoints s = .error e ↔ fault? (escapeNumbers s) = some e := by
  fun_induction codePoints s with
  | case1 => simp [escapeNumbers, fault?]
  | case2 => simp [escapeNumbers, fault?]
  | case3 c s n rest h ih =>
    rw [escapeNumbers_numeric h]
    by_cases hn : n ≤ lastCodePoint
    · rw [codePoint_of_le hn, fault?_cons_of_le _ hn, ← ih]
      exact map_eq_error_iff (n :: ·) (codePoints rest) e
    · have hlt : lastCodePoint < n := by omega
      rw [codePoint_of_lt hlt, fault?_cons_of_lt _ hlt]
      change Except.error (EscapeError.ofNumber n) = .error e ↔ _
      simp
  | case4 c s h ih =>
    rw [escapeNumbers_simple h, ← ih]
    exact map_eq_error_iff (simpleEscape c ++ ·) (codePoints s) e
  | case5 c s h1 h2 ih =>
    have hs : escapeNumbers (c :: s) = escapeNumbers s := by
      rw [escapeNumbers]
      exact h2
    rw [hs, ← ih]
    exact map_eq_error_iff (c.toNat :: ·) (codePoints s) e

/-- A literal is decoded unless one of its escapes names a number beyond the last code point; the
first such number decides what is wrong. -/
theorem decode_error_iff (s : List Char) (e : EscapeError) :
    decode s = .error e ↔ fault? (escapeNumbers s) = some e := by
  rw [decode, map_eq_error_iff, codePoints_error_iff]

end RouteBook.Literal
