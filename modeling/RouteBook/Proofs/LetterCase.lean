import Mathlib
import RouteBook.Text.Case

/-! Letter case between ASCII and the other characters. A letter outside of ASCII may have a capital
form in ASCII, and then passes for the small letters that share this form. Main statement: a word in
capitals is the capital form of a text exactly if it has the same small form as the text after its
letters in disguise are replaced by what they pass for. -/
namespace RouteBook.Text

/-- Runs whose letters are moved to code points beyond ASCII. -/
def StaysForeign (r : Nat × Nat × Nat × Int) : Prop :=
  128 ≤ r.1 + r.2.2.2 ∧
    (r.2.1 + r.2.2.2 < 0xD800 ∨ 0xE000 ≤ r.1 + r.2.2.2 ∧ r.2.1 + r.2.2.2 < 0x110000)

instance (r : Nat × Nat × Nat × Int) : Decidable (StaysForeign r) :=
  inferInstanceAs (Decidable (_ ∧ _))

/-- The letters outside of ASCII whose capital form is ASCII, and the small letters of this form. -/
def disguises : List (Char × List Char) :=
  [('\u00DF', ['s', 's']), ('\u0131', ['i']), ('\u017F', ['s']), ('\uFB00', ['f', 'f']),
   ('\uFB01', ['f', 'i']), ('\uFB02', ['f', 'l']), ('\uFB03', ['f', 'f', 'i']),
   ('\uFB04', ['f', 'f', 'l']), ('\uFB05', ['s', 't']), ('\uFB06', ['s', 't'])]

/-- What a character passes for in capitals: itself, unless it is a letter in disguise. -/
def unmask (c : Char) : List Char := ((disguises.find? (·.1 == c)).map Prod.snd).getD [c]

/-- A text with small letters in the place of those in disguise. -/
def unmasked (s : String) : String := String.ofList (s.toList.flatMap unmask)

/-- A word of capital letters. The letter K is left out: the sign for kelvin shares its small
form. -/
def IsCapitals (w : String) : Prop := ∀ c ∈ w.toList, c.isUpper = true ∧ c ≠ 'K'

/-! Each row of the tables keeps outside of ASCII, but for the letters in disguise and the sign for
kelvin. -/

theorem disguises_spec : ∀ p ∈ disguises,
    128 ≤ p.1.toNat ∧ unmask p.1 = p.2 ∧ upperChar p.1 = p.2.map Char.toUpper := by
  decide +kernel

theorem upperForms_spec : ∀ f ∈ upperForms,
    (∃ p ∈ disguises, p.1.toNat = f.1) ∨ ∃ k ∈ f.2, 128 ≤ (Char.ofNat k).toNat := by
  decide +kernel

theorem upperRuns_spec : ∀ r ∈ upperRuns,
    (r.1 = r.2.1 ∧ ∃ p ∈ disguises, p.1.toNat = r.1) ∨ StaysForeign r := by
  decide +kernel

theorem lowerRuns_spec : ∀ r ∈ lowerRuns,
    r.2.1 < 128 ∨ (r.1 = r.2.1 ∧ r.1 + r.2.2.2 = 'k'.toNat) ∨ StaysForeign r := by
  decide +kernel

section Characters
variable {c d : Char} {n : Nat} {r : Nat × Nat × Nat × Int}

theorem StaysForeign.le_toNat (h : StaysForeign r) (hfirst : r.1 ≤ n) (hlast : n ≤ r.2.1) :
    128 ≤ (Char.ofNat (n + r.2.2.2).toNat).toNat := by
  obtain ⟨hlow, hhigh⟩ := h
  have hvalid : (n + r.2.2.2).toNat.isValidChar := by
    simp only [Nat.isValidChar]
    omega
  rw [Char.toNat_ofNat, if_pos hvalid]
  omega

theorem bounds_of_find? {runs : List (Nat × Nat × Nat × Int)}
    (h : runs.find? (fun r => r.1 ≤ n && n ≤ r.2.1 && (n - r.1) % r.2.2.1 == 0) = some r) :
    r ∈ runs ∧ r.1 ≤ n ∧ n ≤ r.2.1 := by
  have hfits := List.find?_some h
  simp only [Bool.and_eq_true, decide_eq_true_eq] at hfits
  exact ⟨List.mem_of_find?_eq_some h, hfits.1⟩

theorem not_isAlpha_foreign (h : 128 ≤ c.toNat) : ¬ c.isAlpha = true := by
  simp only [Char.isAlpha, Char.isUpper, Char.isLower, Bool.or_eq_true, Bool.and_eq_true,
    decide_eq_true_eq, ge_iff_le, UInt32.le_iff_toNat_le]
  change ¬ (65 ≤ c.toNat ∧ c.toNat ≤ 90 ∨ 97 ≤ c.toNat ∧ c.toNat ≤ 122)
  omega

theorem toUpper_foreign (h : 128 ≤ c.toNat) : c.toUpper = c :=
  Char.toUpper_eq_of_not_isLower fun hc => not_isAlpha_foreign h (by simp [Char.isAlpha, hc])

theorem toLower_foreign (h : 128 ≤ c.toNat) : c.toLower = c :=
  Char.toLower_eq_of_not_isUpper fun hc => not_isAlpha_foreign h (by simp [Char.isAlpha, hc])

theorem toUpper_eq_toUpper_iff : c.toUpper = d.toUpper ↔ c.toLower = d.toLower := by
  constructor <;> intro h
  · rw [← Char.toLower_toUpper_eq_toLower, h, Char.toLower_toUpper_eq_toLower]
  · rw [← Char.toUpper_toLower_eq_toUpper, h, Char.toUpper_toLower_eq_toUpper]

theorem unmask_of_forall_ne (h : ∀ p ∈ disguises, p.1 ≠ c) : unmask c = [c] := by
  have hnone : disguises.find? (·.1 == c) = none := by simpa using h
  rw [unmask, hnone]
  rfl

theorem unmask_ascii (h : c.toNat < 128) : unmask c = [c] := by
  refine unmask_of_forall_ne ?_
  rintro p hp rfl
  have hforeign := (disguises_spec p hp).1
  omega

theorem exists_mem_upperChar (h : 128 ≤ c.toNat) (hne : ∀ p ∈ disguises, p.1 ≠ c) :
    ∃ d ∈ upperChar c, 128 ≤ d.toNat := by
  have hnone : ∀ n, n = c.toNat → ¬ ∃ p ∈ disguises, p.1.toNat = n := by
    rintro n rfl ⟨p, hp, heq⟩
    exact hne p hp (Char.toNat_inj.mp heq)
  rw [upperChar, if_neg (by omega)]
  split
  · rename_i f hf
    have hcode : f.1 = c.toNat := by simpa using List.find?_some hf
    obtain ⟨k, hk, hforeign⟩ :=
      (upperForms_spec f (List.mem_of_find?_eq_some hf)).resolve_left (hnone _ hcode)
    exact ⟨Char.ofNat k, List.mem_map_of_mem hk, hforeign⟩
  · split
    · rename_i r hr
      obtain ⟨hmem, hfirst, hlast⟩ := bounds_of_find? hr
      obtain ⟨hsingle, hdisguise⟩ | hstays := upperRuns_spec r hmem
      · exact absurd hdisguise (hnone _ (by omega))
      · exact ⟨_, List.mem_singleton_self _, hstays.le_toNat hfirst hlast⟩
    · exact ⟨c, List.mem_singleton_self c, h⟩

/-- A character is upper-cased like the letters it passes for, or to something outside of ASCII. -/
theorem upperChar_eq_or (c : Char) : upperChar c = (unmask c).map Char.toUpper ∨
    128 ≤ c.toNat ∧ unmask c = [c] ∧ ∃ d ∈ upperChar c, 128 ≤ d.toNat := by
  by_cases hascii : c.toNat < 128
  · rw [unmask_ascii hascii, upperChar, if_pos hascii]
    exact .inl rfl
  · by_cases hne : ∀ p ∈ disguises, p.1 ≠ c
    · have hforeign : 128 ≤ c.toNat := by omega
      exact .inr ⟨hforeign, unmask_of_forall_ne hne, exists_mem_upperChar hforeign hne⟩
    · obtain ⟨p, hp, rfl⟩ : ∃ p ∈ disguises, p.1 = c := by simpa using hne
      obtain ⟨-, hunmask, hupper⟩ := disguises_spec p hp
      rw [hunmask, hupper]
      exact .inl rfl

/-- The small form of a character outside of ASCII has such a character or is the letter k. -/
theorem exists_mem_lowerChar (h : 128 ≤ c.toNat) :
    ∃ d ∈ lowerChar c, 128 ≤ d.toNat ∨ d = 'k' := by
  rw [lowerChar, if_neg (by omega)]
  split
  · exact ⟨Char.ofNat 0x307, by simp, .inl (by decide)⟩
  · split
    · rename_i r hr
      obtain ⟨hmem, hfirst, hlast⟩ := bounds_of_find? hr
      refine ⟨_, List.mem_singleton_self _, ?_⟩
      obtain hlow | ⟨hsingle, hk⟩ | hstays := lowerRuns_spec r hmem
      · omega
      · have hn : (c.toNat : Int) = r.1 := by omega
        rw [hn, hk]
        exact .inr rfl
      · exact .inl (hstays.le_toNat hfirst hlast)
    · exact ⟨c, List.mem_singleton_self c, .inl h⟩

end Characters

section Texts
variable {s w : List Char} {c : Char}

theorem exists_mem_lowerFrom (hc : c ∈ s) (h : 128 ≤ c.toNat) (before : List Char) :
    ∃ d ∈ lowerFrom before s, 128 ≤ d.toNat ∨ d = 'k' := by
  induction s generalizing before with
  | nil => cases hc
  | cons a s ih =>
    simp only [lowerFrom, List.mem_append]
    obtain rfl | hc := List.mem_cons.mp hc
    · have hsmall : ∃ d ∈ (if c.toNat = 0x3A3 then
          if nextIsCased before && !nextIsCased s then [Char.ofNat 0x3C2] else [Char.ofNat 0x3C3]
          else lowerChar c), 128 ≤ d.toNat ∨ d = 'k' := by
        split
        · split <;> exact ⟨_, List.mem_singleton_self _, .inl (by decide)⟩
        · exact exists_mem_lowerChar h
      obtain ⟨d, hd, hd'⟩ := hsmall
      exact ⟨d, .inl hd, hd'⟩
    · obtain ⟨d, hd, hd'⟩ := ih hc (a :: before)
      exact ⟨d, .inr hd, hd'⟩

/-- An ASCII word is the capital form of a text exactly if it is that of the letters that the text
passes for. -/
theorem flatMap_upperChar_eq_iff (hw : ∀ c ∈ w, c.toNat < 128) :
    s.flatMap upperChar = w ↔ (s.flatMap unmask).map Char.toUpper = w := by
  by_cases h : ∀ c ∈ s, upperChar c = (unmask c).map Char.toUpper
  · rw [List.flatMap_congr h, List.map_flatMap]
  · obtain ⟨c, hc, hne⟩ : ∃ c ∈ s, ¬ upperChar c = (unmask c).map Char.toUpper := by simpa using h
    obtain ⟨hforeign, hplain, d, hd, hd'⟩ := (upperChar_eq_or c).resolve_left hne
    -- Such a character keeps both sides from being an ASCII word.
    constructor <;> rintro rfl
    · have hascii := hw d (List.mem_flatMap.mpr ⟨c, hc, hd⟩)
      omega
    · have hmem : c ∈ s.flatMap unmask := List.mem_flatMap.mpr ⟨c, hc, by simp [hplain]⟩
      have hascii := hw c.toUpper (List.mem_map_of_mem hmem)
      rw [toUpper_foreign hforeign] at hascii
      omega

theorem map_toUpper_eq_iff :
    s.map Char.toUpper = w.map Char.toUpper ↔ s.map Char.toLower = w.map Char.toLower := by
  simp only [← List.forall₂_eq_eq_eq, List.forall₂_map_left_iff, List.forall₂_map_right_iff,
    toUpper_eq_toUpper_iff]

end Texts

section Words
variable {s w : String}

theorem unmasked_ascii (h : ∀ c ∈ s.toList, c.toNat < 128) : unmasked s = s := by
  rw [unmasked, List.flatMap_congr fun c hc => unmask_ascii (h c hc), List.flatMap_singleton',
    String.ofList_toList]

namespace IsCapitals

theorem ascii (hw : IsCapitals w) : ∀ c ∈ w.toList, c.toNat < 128 := by
  intro c hc
  have halpha : c.isAlpha = true := by simp [Char.isAlpha, (hw c hc).1]
  by_contra hforeign
  exact not_isAlpha_foreign (by omega) halpha

theorem toUpper_eq (hw : IsCapitals w) : ∀ c ∈ w.toList, c.toUpper = c :=
  fun c hc => Char.toUpper_eq_of_not_isLower (Char.not_isLower_of_isUpper (hw c hc).1)

theorem map_toUpper (hw : IsCapitals w) : w.toList.map Char.toUpper = w.toList := by
  rw [List.map_congr_left hw.toUpper_eq, List.map_id']

theorem small (hw : IsCapitals w) :
    ∀ d ∈ w.toList.map Char.toLower, d.toNat < 128 ∧ d ≠ 'k' := by
  intro d hd
  obtain ⟨c, hc, rfl⟩ := List.mem_map.mp hd
  have hback : c.toLower.toUpper = c := by
    rw [Char.toUpper_toLower_eq_toUpper, hw.toUpper_eq c hc]
  constructor
  · by_contra hforeign
    have hsame : c.toLower.toUpper = c.toLower := toUpper_foreign (by omega)
    rw [← hsame, hback] at hforeign
    exact hforeign (hw.ascii c hc)
  · intro hk
    rw [hk] at hback
    exact (hw c hc).2 hback.symm

theorem ascii_of_small (hw : IsCapitals w)
    (h : s.toList.map Char.toLower = w.toList.map Char.toLower) :
    ∀ c ∈ s.toList, c.toNat < 128 := by
  intro c hc
  by_contra hforeign
  have hmem : c.toLower ∈ w.toList.map Char.toLower := h ▸ List.mem_map_of_mem hc
  rw [toLower_foreign (by omega)] at hmem
  exact hforeign (hw.small c hmem).1

/-- A text has the small form of a word exactly if it is the word in some case of ASCII letters. -/
theorem lower_eq_iff (hw : IsCapitals w) :
    lower s = lower w ↔ s.toList.map Char.toLower = w.toList.map Char.toLower := by
  rw [lower, lower, String.ofList_inj, lowerFrom_ascii hw.ascii]
  by_cases hs : ∀ c ∈ s.toList, c.toNat < 128
  · rw [lowerFrom_ascii hs]
  · obtain ⟨c, hc, hforeign⟩ : ∃ c ∈ s.toList, 128 ≤ c.toNat := by simpa using hs
    constructor <;> intro h
    · obtain ⟨d, hd, hd'⟩ := exists_mem_lowerFrom hc hforeign []
      obtain ⟨hascii, hk⟩ := hw.small d (h ▸ hd)
      obtain hd' | hd' := hd'
      · omega
      · exact absurd hd' hk
    · exact absurd (hw.ascii_of_small h) hs

/-- A word is the capital form of a text exactly if it has the small form of what the text passes
for. -/
theorem upper_eq_iff (hw : IsCapitals w) : upper s = w ↔ lower (unmasked s) = lower w := by
  rw [hw.lower_eq_iff, ← map_toUpper_eq_iff, hw.map_toUpper, unmasked, String.toList_ofList,
    ← flatMap_upperChar_eq_iff hw.ascii, upper, ← String.toList_inj, String.toList_ofList]

end IsCapitals

end Words

end RouteBook.Text
