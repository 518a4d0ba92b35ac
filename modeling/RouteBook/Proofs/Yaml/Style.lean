import RouteBook.Proofs.Yaml.Cursor
import RouteBook.Yaml.Token.Reader

/-! What the style of a text says about its characters. -/
namespace RouteBook.Yaml

theorem readable_of_not_special {c : Char} (h : isSpecial c = false) : isReadable c = true := by
  by_cases hc : c = '\n'
  · subst hc
    decide
  · simp [isSpecial, hc] at h
    simp [isReadable]
    omega

theorem inline_of_not_special {c : Char} (h : isSpecial c = false) (hb : isBreak c = false) :
    isInline c = true := by
  have hr : c ≠ '\r' := by
    rintro rfl
    exact absurd h (by decide)
  have hm : c ≠ '\uFEFF' := by
    rintro rfl
    exact absurd h (by decide)
  simp [isInline, isNewline, hb, hr, hm]

def isLetter (c : Char) : Bool := !isSpaceOrBreak c && c != '\uFEFF'

theorem letter_of_not_special {c : Char} (h : isSpecial c = false) (hb : isBreak c = false)
    (hc : c ≠ ' ') : isLetter c = true := by
  have hne : ∀ d, isSpecial d = true → c ≠ d := by
    rintro d hd rfl
    simp [hd] at h
  simp [isLetter, isSpaceOrBreak, hb, hc, hne '\x00' (by decide), hne '\t' (by decide),
    hne '\r' (by decide), hne '\uFEFF' (by decide)]

theorem space_of_letter {c : Char} (h : isLetter c = true) : isSpaceOrBreak c = false := by
  simp only [isLetter, Bool.and_eq_true, Bool.not_eq_true'] at h
  exact h.1

theorem newline_of_letter {c : Char} (h : isLetter c = true) : isNewline c = false := by
  have hs := space_of_letter h
  simp only [isSpaceOrBreak, Bool.or_eq_false_iff] at hs
  simp [isNewline, hs]

theorem inline_of_letter {c : Char} (h : isLetter c = true) : isInline c = true := by
  have hn := newline_of_letter h
  simp only [isLetter, Bool.and_eq_true] at h
  simp [isInline, hn, h.2]

theorem ne_blank_of_letter {c : Char} (h : isLetter c = true) : c ≠ ' ' := by
  rintro rfl
  exact absurd h (by decide)

def Legible (split : Bool) (c : Char) : Prop :=
  isReadable c = true ∧ (split = false → isInline c = true)

theorem legible_of_not_special {c : Char} (h : isSpecial c = false) {split : Bool}
    (hb : split = false → isBreak c = false) : Legible split c :=
  ⟨readable_of_not_special h, fun hs => inline_of_not_special h (hb hs)⟩

theorem legible_of_ascii {c : Char} (h : 0x20 ≤ c.toNat) (h' : c.toNat ≤ 0x7E) (split : Bool) :
    Legible split c := by
  have hspecial : isSpecial c = false := by simp [isSpecial, h, h']
  refine legible_of_not_special hspecial fun _ => ?_
  have hne : ∀ d : Char, (d.toNat < 0x20 ∨ 0x7E < d.toNat) → c ≠ d := by
    rintro d hd rfl
    omega
  simp [isBreak, hne '\n' (by decide), hne '\x85' (by decide), hne '\u2028' (by decide),
    hne '\u2029' (by decide)]

theorem legible_lineFeed {split : Bool} (h : split = true) : Legible split '\n' :=
  ⟨by decide, fun hs => by simp [h] at hs⟩

theorem legible_blank (split : Bool) : Legible split ' ' :=
  legible_of_ascii (by decide) (by decide) split

end RouteBook.Yaml
