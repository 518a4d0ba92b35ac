import Mathlib.Tactic.IntervalCases
import RouteBook.Text.Digit

/-! Hexadecimal numbers: reading the digits of a number gives the number back, in any letter case
and after any zeros. -/
namespace RouteBook.Text
variable {c : Char} {n : Nat} {digits : List Char}

theorem hexValue?_digitChar (h : n < 16) : hexValue? n.digitChar.toUpper = some n := by
  interval_cases n <;> rfl

theorem hexNumber_concat (s : List Char) (c : Char) :
    hexNumber (s ++ [c]) = hexNumber s * 16 + (hexValue? c).getD 0 := by
  simp [hexNumber]

theorem hexNumber_toDigits (n : Nat) :
    hexNumber ((Nat.toDigits 16 n).map Char.toUpper) = n ∧
      ((Nat.toDigits 16 n).map Char.toUpper).all isHex = true := by
  induction n using Nat.strongRecOn with
  | ind n ih =>
    have hdigit := hexValue?_digitChar (Nat.mod_lt n (by omega : 0 < 16))
    rw [Nat.toDigits_eq_if (by omega)]
    split
    · rename_i h
      rw [Nat.mod_eq_of_lt h] at hdigit
      simp [hexNumber, isHex, hdigit]
    · obtain ⟨hvalue, hall⟩ := ih (n / 16) (by omega)
      rw [List.map_append, List.map_singleton, hexNumber_concat, hvalue, hdigit, List.all_append,
        hall]
      refine ⟨?_, by simp [isHex, hdigit]⟩
      simp only [Option.getD_some]
      omega

theorem hexNumber_zeros (m : Nat) (s : List Char) :
    hexNumber (List.replicate m '0' ++ s) = hexNumber s := by
  induction m with
  | zero => rfl
  | succ m ih => exact ih

theorem toNat_toUpper (h : 97 ≤ c.toNat ∧ c.toNat ≤ 122) : c.toUpper.toNat = c.toNat - 32 := by
  have hsmall : c.val ≥ 'a'.val ∧ c.val ≤ 'z'.val :=
    ⟨UInt32.le_iff_toNat_le.mpr h.1, UInt32.le_iff_toNat_le.mpr h.2⟩
  have hval : c.toUpper.val = c.val + ('A'.val - 'a'.val) := by
    rw [show c.toUpper = _ from dif_pos hsmall]
  have hshift : ('A'.val - 'a'.val).toNat = 4294967264 := rfl
  have hc : c.toNat = c.val.toNat := rfl
  change c.toUpper.val.toNat = _
  rw [hval, UInt32.toNat_add, hshift]
  omega

theorem toUpper_of_not_small (h : ¬ (97 ≤ c.toNat ∧ c.toNat ≤ 122)) : c.toUpper = c := by
  refine dif_neg fun hsmall => h ?_
  exact ⟨UInt32.le_iff_toNat_le.mp hsmall.1, UInt32.le_iff_toNat_le.mp hsmall.2⟩

theorem hexValue?_toUpper (c : Char) : hexValue? c.toUpper = hexValue? c := by
  by_cases h : 97 ≤ c.toNat ∧ c.toNat ≤ 122
  · simp only [hexValue?, toNat_toUpper h]
    grind
  · rw [toUpper_of_not_small h]

theorem hexNumber_map_toUpper (s : List Char) : hexNumber (s.map Char.toUpper) = hexNumber s := by
  simp only [hexNumber, List.foldl_map, hexValue?_toUpper]

theorem isHex_toUpper (c : Char) : isHex c.toUpper = isHex c := by
  rw [isHex, hexValue?_toUpper, isHex]

/-- The digits of a number in any letter case, perhaps after some zeros. -/
def SpellsHex (n : Nat) (digits : List Char) : Prop :=
  ∃ zeros, digits.map Char.toUpper =
    List.replicate zeros '0' ++ (Nat.toDigits 16 n).map Char.toUpper

theorem SpellsHex.hexNumber_eq (h : SpellsHex n digits) : hexNumber digits = n := by
  obtain ⟨zeros, h⟩ := h
  rw [← hexNumber_map_toUpper, h, hexNumber_zeros, (hexNumber_toDigits n).1]

theorem SpellsHex.all (h : SpellsHex n digits) : ∀ d ∈ digits, isHex d = true := by
  obtain ⟨zeros, h⟩ := h
  intro d hd
  have hmem : d.toUpper ∈ List.replicate zeros '0' ++ (Nat.toDigits 16 n).map Char.toUpper :=
    h ▸ List.mem_map_of_mem hd
  rw [← isHex_toUpper]
  obtain hzero | hdigit := List.mem_append.mp hmem
  · rw [(List.mem_replicate.mp hzero).2]
    decide
  · exact List.all_eq_true.mp (hexNumber_toDigits n).2 _ hdigit

theorem SpellsHex.ne_nil (h : SpellsHex n digits) : digits ≠ [] := by
  intro he
  obtain ⟨zeros, h⟩ := h
  rw [he] at h
  simpa using (List.append_eq_nil_iff.mp h.symm).2

end RouteBook.Text
