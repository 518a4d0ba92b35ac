import Mathlib.Data.Bool.AllAny
import RouteBook.Proofs.Hex
import RouteBook.Proofs.Literal
import RouteBook.Proofs.Utf8

/-! How a character can be written in a literal, and what each way contributes to the literal: the
code point of the character, or the two halves of its surrogate pair. -/
namespace RouteBook.Literal
open Outcome
open Text (SpellsHex)

/-- How a number is named, after the backslash. -/
inductive NumberText : Nat → List Char → Prop where
  | braced {n : Nat} (digits : List Char) : SpellsHex n digits →
      NumberText n ('u' :: '\x7b' :: (digits ++ ['\x7d']))
  | four {n : Nat} (d₁ d₂ d₃ d₄ : Char) : SpellsHex n [d₁, d₂, d₃, d₄] →
      NumberText n ['u', d₁, d₂, d₃, d₄]
  | two {n : Nat} (d₁ d₂ : Char) : SpellsHex n [d₁, d₂] → NumberText n ['x', d₁, d₂]

/-- The characters that have a letter or a digit of their own after a backslash. -/
def namedEscapes : List (Char × Char) :=
  [('n', '\n'), ('t', '\t'), ('r', '\r'), ('b', '\x08'), ('f', '\x0c'), ('v', '\x0b'),
   ('0', '\x00')]

/-- The characters that do not stand for themselves after a backslash. -/
def takenEscapes : List Char := ['n', 't', 'r', 'b', 'f', 'v', '0', 'u', 'x', '\n']

/-- Broken lines: each goes on after a backslash at its end. -/
def lineBreaks (count : Nat) : List Char := (List.replicate count ['\\', '\n']).flatten

/-- The numbers of the two halves of a surrogate pair, and the character they make. -/
structure IsPair (high low : Nat) (a : Char) : Prop where
  isHigh : isHighSurrogate high = true
  isLow : isLowSurrogate low = true
  toNat_eq : a.toNat = 0x10000 + (high - 0xD800) * 0x400 + (low - 0xDC00)

/-- The ways to write a character. -/
inductive Spelling : Char → List Char → Prop where
  | raw {a : Char} : a ≠ '\\' → Spelling a [a]
  | number {a : Char} {e : List Char} : NumberText a.toNat e → Spelling a ('\\' :: e)
  | pair {a : Char} {high low : Nat} {e f : List Char} (breaks : Nat) : IsPair high low a →
      NumberText high e → NumberText low f →
      Spelling a ('\\' :: e ++ (lineBreaks breaks ++ '\\' :: f))
  | named {a b : Char} : (b, a) ∈ namedEscapes → Spelling a ['\\', b]
  | same {a : Char} : a ∉ takenEscapes → Spelling a ['\\', a]

/-- The ways to write a character with backslashes in one line. -/
structure Escapes (a : Char) (t : List Char) : Prop where
  spelled : Spelling a t
  escaped : t.head? = some '\\'
  inLine : '\n' ∉ t

variable {a b : Char} {n high low : Nat} {e s t rest : List Char} {ns ms : List Nat}

theorem Escapes.cons (h : Escapes a t) : ∃ e, t = '\\' :: e := by
  cases t with
  | nil => cases h.escaped
  | cons c e => exact ⟨e, congrArg (· :: e) (Option.some.inj h.escaped)⟩

theorem numericEscape?_append (h : NumberText n e) (rest : List Char) :
    numericEscape? (e ++ rest) = some (n, rest) := by
  cases h with
  | braced digits hd =>
    have htake : (digits ++ '\x7d' :: rest).takeWhile Text.isHex = digits := by
      rw [List.takeWhile_append_of_pos hd.all, List.takeWhile_cons_of_neg (by decide),
        List.append_nil]
    have hvalue := hd.hexNumber_eq
    obtain ⟨d, ds, rfl⟩ := List.exists_cons_of_ne_nil hd.ne_nil
    have hdrop : (d :: ds ++ '\x7d' :: rest).drop (d :: ds).length = '\x7d' :: rest :=
      List.drop_left
    simp only [List.cons_append, List.append_assoc, List.nil_append] at htake hdrop ⊢
    simp only [numericEscape?, htake, hdrop, hvalue]
  | four d₁ d₂ d₃ d₄ hd =>
    have hopen : d₁ ≠ '\x7b' := by
      rintro rfl
      exact absurd (hd.all '\x7b' (by simp)) (by decide)
    have hall : [d₁, d₂, d₃, d₄].all Text.isHex = true := List.all_eq_true.mpr hd.all
    simp only [List.cons_append, List.nil_append]
    unfold numericEscape?
    split
    · next h =>
      obtain ⟨-, h⟩ := List.cons.inj h
      exact absurd (List.cons.inj h).1 hopen
    · next h =>
      simp only [List.cons.injEq, true_and] at h
      obtain ⟨rfl, rfl, rfl, rfl, rfl⟩ := h
      rw [if_pos hall, hd.hexNumber_eq]
    · next h => simp at h
    · next hnone _ => exact (hnone _ _ _ _ _ rfl).elim
  | two d₁ d₂ hd =>
    have hall : [d₁, d₂].all Text.isHex = true := List.all_eq_true.mpr hd.all
    simp only [List.cons_append, List.nil_append, numericEscape?, hall, if_true, hd.hexNumber_eq]

theorem numericEscape?_single (hu : b ≠ 'u') (hx : b ≠ 'x') (rest : List Char) :
    numericEscape? (b :: rest) = none := by
  unfold numericEscape?
  split <;> simp_all

theorem NumberText.cons (h : NumberText n e) : ∃ c f, e = c :: f := by
  cases h <;> exact ⟨_, _, rfl⟩

theorem codePoints_numeric (h : NumberText n e) (hn : n ≤ lastCodePoint) (rest : List Char) :
    codePoints ('\\' :: e ++ rest) = (n :: ·) <$> codePoints rest := by
  have hread := numericEscape?_append h rest
  obtain ⟨c, f, rfl⟩ := h.cons
  simp only [List.cons_append] at hread ⊢
  rw [codePoints]
  split
  · next m more hm =>
    rw [hread] at hm
    cases hm
    rw [codePoint_of_le hn, ok_bind]
    rfl
  · next hm =>
    rw [hread] at hm
    cases hm

theorem codePoints_single (hu : b ≠ 'u') (hx : b ≠ 'x') (rest : List Char) :
    codePoints ('\\' :: b :: rest) = (simpleEscape b ++ ·) <$> codePoints rest := by
  rw [codePoints]
  split
  · next m more hm =>
    rw [numericEscape?_single hu hx] at hm
    cases hm
  · rfl

theorem codePoints_raw (ha : a ≠ '\\') (rest : List Char) :
    codePoints (a :: rest) = (a.toNat :: ·) <$> codePoints rest := by
  rw [codePoints]
  · rfl
  · simp [ha]
  · simp [ha]

/-- The code points that a text contributes to a literal, whatever comes after it. -/
def Contributes (t : List Char) (ns : List Nat) : Prop :=
  ∀ rest, codePoints (t ++ rest) = (ns ++ ·) <$> codePoints rest

theorem contributes_nil : Contributes [] [] := by
  intro rest
  cases h : codePoints rest <;> simp [h, Functor.map, Except.map]

theorem Contributes.append (hs : Contributes s ns) (ht : Contributes t ms) :
    Contributes (s ++ t) (ns ++ ms) := by
  intro rest
  rw [List.append_assoc, hs, ht]
  cases codePoints rest <;> simp [Functor.map, Except.map]

theorem contributes_number (h : NumberText n e) (hn : n ≤ lastCodePoint) :
    Contributes ('\\' :: e) [n] := fun rest => codePoints_numeric h hn rest

theorem contributes_single (hu : b ≠ 'u') (hx : b ≠ 'x') :
    Contributes ['\\', b] (simpleEscape b) := fun rest => codePoints_single hu hx rest

theorem contributes_lineBreaks (count : Nat) : Contributes (lineBreaks count) [] := by
  induction count with
  | zero => exact contributes_nil
  | succ count ih => exact (contributes_single (b := '\n') (by decide) (by decide)).append ih

theorem simpleEscape_of_named (h : (b, a) ∈ namedEscapes) :
    b ≠ 'u' ∧ b ≠ 'x' ∧ simpleEscape b = [a.toNat] := by
  have hall : ∀ p ∈ namedEscapes, p.1 ≠ 'u' ∧ p.1 ≠ 'x' ∧ simpleEscape p.1 = [p.2.toNat] :=
    List.all_iff_forall_prop.mp (by decide)
  exact hall _ h

theorem simpleEscape_of_not_taken (h : a ∉ takenEscapes) : simpleEscape a = [a.toNat] := by
  simp only [takenEscapes, List.mem_cons, List.not_mem_nil, not_or] at h
  unfold simpleEscape
  split <;> simp_all

theorem IsPair.le_lastCodePoint (h : IsPair high low a) :
    high ≤ lastCodePoint ∧ low ≤ lastCodePoint := by
  have hhigh := h.isHigh
  have hlow := h.isLow
  simp only [isHighSurrogate, isLowSurrogate, Bool.and_eq_true, decide_eq_true_eq] at hhigh hlow
  simp only [lastCodePoint]
  omega

theorem toNat_le_lastCodePoint (a : Char) : a.toNat ≤ lastCodePoint := by
  have h := Text.toNat_bounds a
  simp only [lastCodePoint]
  omega

theorem joinSurrogates_char (a : Char) (ms : List Nat) :
    joinSurrogates (a.toNat :: ms) = a :: joinSurrogates ms := by
  have h := Text.toNat_bounds a
  have hhigh : isHighSurrogate a.toNat = false := by
    simp only [isHighSurrogate, Bool.and_eq_false_iff, decide_eq_false_iff_not]
    omega
  have hlow : isLowSurrogate a.toNat = false := by
    simp only [isLowSurrogate, Bool.and_eq_false_iff, decide_eq_false_iff_not]
    omega
  cases ms <;> simp [joinSurrogates, hhigh, hlow]

/-- However a character is written, it contributes its own code point or a surrogate pair. -/
theorem Spelling.contributes (h : Spelling a t) :
    Contributes t [a.toNat] ∨ ∃ high low, IsPair high low a ∧ Contributes t [high, low] := by
  cases h with
  | raw ha => exact .inl fun rest => codePoints_raw ha rest
  | number he => exact .inl (contributes_number he (toNat_le_lastCodePoint a))
  | pair breaks hp he hf =>
    have hle := hp.le_lastCodePoint
    have hrest := (contributes_lineBreaks breaks).append (contributes_number hf hle.2)
    exact .inr ⟨_, _, hp, (contributes_number he hle.1).append hrest⟩
  | named hb =>
    obtain ⟨hu, hx, hescape⟩ := simpleEscape_of_named hb
    exact .inl (hescape ▸ contributes_single hu hx)
  | same ha =>
    have hne : a ≠ 'u' ∧ a ≠ 'x' := by
      constructor <;> rintro rfl <;> exact ha (by decide)
    exact .inl (simpleEscape_of_not_taken ha ▸ contributes_single hne.1 hne.2)

theorem joinSurrogates_pair (h : IsPair high low a) (ms : List Nat) :
    joinSurrogates (high :: low :: ms) = a :: joinSurrogates ms := by
  rw [joinSurrogates, h.isHigh, h.isLow, ← h.toNat_eq, Char.ofNat_toNat]
  rfl

end RouteBook.Literal
