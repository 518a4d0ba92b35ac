import Mathlib.Tactic.IntervalCases
import RouteBook.Proofs.Json.Syntax
import RouteBook.Yaml.Load

/-! Numbers of the JSON grammar as bare scalars. Those with an exponent are taken for numbers only
where they have a point and their exponent has a sign. -/
namespace RouteBook

section Digits
variable {c : Char} {s : List Char}

theorem ne_of_isDigit (h : c.isDigit = true) {x : Char} (hx : x.isDigit = false) : c ≠ x := by
  rintro rfl
  rw [h] at hx
  cases hx

theorem toNat_of_isDigit (h : c.isDigit = true) : 48 ≤ c.toNat ∧ c.toNat ≤ 57 := by
  simp only [Char.isDigit, Bool.and_eq_true, decide_eq_true_eq, ge_iff_le, UInt32.le_iff_toNat_le]
    at h
  exact h

def numericChars : List Char :=
  ['0', '1', '2', '3', '4', '5', '6', '7', '8', '9', '.', 'e', 'E', '+', '-']

theorem numeric_of_isDigit (h : c.isDigit = true) : c ∈ numericChars := by
  have hn := toNat_of_isDigit h
  have hc : c = Char.ofNat c.toNat := (Char.ofNat_toNat c).symm
  obtain ⟨k, hk⟩ : ∃ k, c.toNat = k := ⟨_, rfl⟩
  rw [hk] at hn hc
  obtain ⟨hlow, hhigh⟩ := hn
  subst hc
  interval_cases k <;> decide

theorem isBlank_of_numeric (h : c ∈ numericChars) : Text.isBlank c = false := by
  have hall : (numericChars.all fun c => !Text.isBlank c) = true := by decide
  simpa using List.all_eq_true.mp hall c h

namespace Number

theorem digitIn?_ten (h : c.isDigit = true) : digitIn? 10 c = some (c.toNat - 48) := by
  have hn := toNat_of_isDigit h
  have hrange : Text.digitValue? c = some (c.toNat - 48) := by
    have hcons : Text.digitRanges = (48, 57) :: Text.digitRanges.tail := rfl
    rw [Text.digitValue?, hcons, List.find?_cons_of_pos (by simp [hn])]
    simp only [Option.map_some, Option.some.injEq]
    omega
  rw [digitIn?, hrange]
  exact if_pos (by omega)

theorem digitsIn?_ten (hs : s.all Char.isDigit = true) (hne : s ≠ []) :
    digitsIn? 10 s = some (s.map fun c => c.toNat - 48) := by
  induction s with
  | nil => exact absurd rfl hne
  | cons c s ih =>
    rw [List.all_cons, Bool.and_eq_true] at hs
    cases s with
    | nil => simp [digitsIn?, digitIn?_ten hs.1]
    | cons d s =>
      have hd := hs.2
      rw [List.all_cons, Bool.and_eq_true] at hd
      have hlow : d ≠ '_' := ne_of_isDigit hd.1 (by decide)
      rw [digitsIn?, digitIn?_ten hs.1, ih hs.2 (by simp)]
      · rfl
      all_goals simp [hlow]

theorem readDigits?_digits (hs : s.all Char.isDigit = true) :
    readDigits? s = some (s.map fun c => c.toNat - 48) := by
  cases s with
  | nil => rfl
  | cons c s => exact digitsIn?_ten hs (by simp)

theorem foldl_digits (s : List Char) :
    (s.map fun c => c.toNat - 48).foldl (fun n d => n * 10 + d) 0 = Json.decimal s := by
  rw [List.foldl_map]
  rfl

/-- A text without blanks is trimmed already. -/
theorem trim_of_solid (h : ∀ c ∈ s, Text.isBlank c = false) : Text.trim s = s := by
  have hdrop (t : List Char) (ht : ∀ c ∈ t, Text.isBlank c = false) :
      t.dropWhile Text.isBlank = t := by
    cases t with
    | nil => rfl
    | cons c t => simp [ht c (by simp)]
  rw [Text.trim, hdrop s h, hdrop s.reverse (by simpa using h), List.reverse_reverse]

theorem splitSign_of_digit (h : c.isDigit = true) : splitSign (c :: s) = (false, c :: s) := by
  have hminus : c ≠ '-' := ne_of_isDigit h (by decide)
  have hplus : c ≠ '+' := ne_of_isDigit h (by decide)
  unfold splitSign
  split <;> simp_all

theorem readInt?_digits (hs : s.all Char.isDigit = true) (hne : s ≠ [])
    (hlen : s.length ≤ maxDigits) : readInt? 10 s = some (Json.decimal s : Int) := by
  obtain ⟨c, t, rfl⟩ := List.exists_cons_of_ne_nil hne
  have hall := List.all_eq_true.mp hs
  have htrim : Text.trim (c :: t) = c :: t :=
    trim_of_solid fun x hx => isBlank_of_numeric (numeric_of_isDigit (hall x hx))
  have hsign := splitSign_of_digit (s := t) (hall c (by simp))
  rw [readInt?, htrim, hsign]
  have hmark : dropBaseMark 10 (c :: t) = c :: t := rfl
  simp only [hmark, digitsIn?_ten hs hne, Option.bind_eq_bind, Option.bind_some, List.length_map,
    foldl_digits]
  rw [if_neg (by omega)]
  rfl

theorem splitExponent_none (h : s.all fun c => !(c == 'e' || c == 'E')) :
    splitExponent s = (s, none) := by
  have hnone : s.dropWhile (fun c => !(c == 'e' || c == 'E')) = [] := by
    rw [← List.append_nil s, List.dropWhile_append_of_pos (List.all_eq_true.mp h)]
    rfl
  simp only [splitExponent, hnone]

theorem splitExponent_some (h : s.all fun c => !(c == 'e' || c == 'E')) (t : List Char) :
    splitExponent (s ++ 'e' :: t) = (s, some t) := by
  have hpos := List.all_eq_true.mp h
  have hdrop : (s ++ 'e' :: t).dropWhile (fun c => !(c == 'e' || c == 'E')) = 'e' :: t := by
    rw [List.dropWhile_append_of_pos hpos]
    rfl
  have htake : (s ++ 'e' :: t).takeWhile (fun c => !(c == 'e' || c == 'E')) = s := by
    rw [List.takeWhile_append_of_pos hpos]
    simp
  simp only [splitExponent, hdrop, htake]

theorem splitSign_signText (sign : Option Bool) (hs : s.all Char.isDigit = true) (hne : s ≠ []) :
    splitSign (Json.Exponent.signText sign ++ s) = (decide (sign = some true), s) := by
  obtain ⟨c, t, rfl⟩ := List.exists_cons_of_ne_nil hne
  rw [List.all_cons, Bool.and_eq_true] at hs
  cases sign with
  | none => exact splitSign_of_digit hs.1
  | some minus => cases minus <;> rfl

end Number

end Digits

namespace Yaml
open Json (Numeral Exponent)
open Number (readSigned?)

def lowExponent (n : Numeral) : List Char :=
  match n.exponent with
  | none => []
  | some e => 'e' :: (Exponent.signText e.sign ++ e.digits)

/-- The text of a number with a point, without its sign and in small letters. -/
def lowNumber (n : Numeral) : List Char := n.whole ++ '.' :: (n.fraction ++ lowExponent n)

section Numbers
variable (n : Numeral)

theorem whole_digits : n.whole.all Char.isDigit = true ∧ n.whole ≠ [] := by
  rcases n.isWhole with hz | ⟨d, ds, hw, -, hd⟩
  · rw [hz]
    decide
  · rw [hw]
    exact ⟨hd, by simp⟩

theorem mantissa_unmarked :
    (n.whole ++ '.' :: n.fraction).all (fun c => !(c == 'e' || c == 'E')) = true := by
  have hdigit (c : Char) (h : c.isDigit = true) : (!(c == 'e' || c == 'E')) = true := by
    have he : c ≠ 'e' := ne_of_isDigit h (by decide)
    have hE : c ≠ 'E' := ne_of_isDigit h (by decide)
    simp [he, hE]
  have hw := List.all_eq_true.mp (whole_digits n).1
  have hf := List.all_eq_true.mp n.isFraction
  rw [List.all_append, List.all_cons, Bool.and_eq_true, Bool.and_eq_true]
  exact ⟨List.all_eq_true.mpr fun c hc => hdigit c (hw c hc), by decide,
    List.all_eq_true.mpr fun c hc => hdigit c (hf c hc)⟩

theorem takeWhile_whole (t : List Char) :
    (n.whole ++ '.' :: t).takeWhile (· != '.') = n.whole := by
  have hw := List.all_eq_true.mp (whole_digits n).1
  rw [List.takeWhile_append_of_pos]
  · simp
  · intro c hc
    have hne : c ≠ '.' := ne_of_isDigit (hw c hc) (by decide)
    simpa using hne

theorem numeric_exponent (e : Exponent) :
    ∀ c ∈ Exponent.signText e.sign ++ e.digits, c ∈ numericChars := by
  intro c hc
  rcases List.mem_append.mp hc with hc | hc
  · cases hs : e.sign with
    | none => simp [hs, Exponent.signText] at hc
    | some minus =>
      rw [hs] at hc
      cases minus <;> rw [List.mem_singleton.mp hc] <;> decide
  · exact numeric_of_isDigit (List.all_eq_true.mp e.isDigits c hc)

theorem numeric_exponentText : ∀ c ∈ n.exponentText, c ∈ numericChars := by
  intro c hc
  unfold Numeral.exponentText at hc
  cases he : n.exponent with
  | none => simp [he] at hc
  | some e =>
    rw [he] at hc
    rcases List.mem_cons.mp hc with rfl | hc
    · rcases e.isMark with hm | hm <;> rw [hm] <;> decide
    · exact numeric_exponent e c hc

theorem numeric_text : ∀ c ∈ n.text, c ∈ numericChars := by
  intro c hc
  have hpoint : '.' ∈ numericChars := by decide
  have hfraction : ∀ x ∈ n.fractionText, x ∈ numericChars := by
    intro x hx
    unfold Numeral.fractionText at hx
    split at hx
    · simp at hx
    · rcases List.mem_cons.mp hx with rfl | hx
      · exact hpoint
      · exact numeric_of_isDigit (List.all_eq_true.mp n.isFraction x hx)
  simp only [Numeral.text, Numeral.tailText, List.mem_append] at hc
  rcases hc with hc | hc | hc | hc
  · unfold Numeral.signText at hc
    split at hc
    · rw [List.mem_singleton.mp hc]
      decide
    · simp at hc
  · exact numeric_of_isDigit (List.all_eq_true.mp (whole_digits n).1 c hc)
  · exact hfraction c hc
  · exact numeric_exponentText n c hc

theorem readExponent?_exponent :
    Number.readExponent? (n.exponent.map fun e => Exponent.signText e.sign ++ e.digits) =
      some ((n.exponent.map Exponent.toInt).getD 0) := by
  cases n.exponent with
  | none => rfl
  | some e =>
    simp only [Number.readExponent?, Option.map_some, Option.getD_some, Exponent.toInt,
      Number.splitSign_signText e.sign e.isDigits e.nonempty,
      Number.digitsIn?_ten e.isDigits e.nonempty, Number.foldl_digits, decide_eq_true_eq]

theorem splitExponent_lowNumber : Number.splitExponent (lowNumber n) =
    (n.whole ++ '.' :: n.fraction,
      n.exponent.map fun e => Exponent.signText e.sign ++ e.digits) := by
  have hshape : lowNumber n = (n.whole ++ '.' :: n.fraction) ++ lowExponent n := by
    simp [lowNumber]
  rw [hshape, lowExponent]
  cases n.exponent with
  | none =>
    rw [List.append_nil]
    exact Number.splitExponent_none (mantissa_unmarked n)
  | some e => exact Number.splitExponent_some (mantissa_unmarked n) _

theorem numeric_lowNumber : ∀ c ∈ lowNumber n, c ∈ numericChars := by
  intro c hc
  have hpoint : '.' ∈ numericChars := by decide
  simp only [lowNumber, List.mem_append, List.mem_cons] at hc
  rcases hc with hc | rfl | hc | hc
  · exact numeric_of_isDigit (List.all_eq_true.mp (whole_digits n).1 c hc)
  · exact hpoint
  · exact numeric_of_isDigit (List.all_eq_true.mp n.isFraction c hc)
  · unfold lowExponent at hc
    split at hc
    · simp at hc
    · next e he =>
      rcases List.mem_cons.mp hc with rfl | hc
      · decide
      · exact numeric_exponent e c hc

theorem readSigned?_lowNumber (hf : n.fraction ≠ []) (opposite : Bool) :
    readSigned? opposite (lowNumber n) =
      some (Number.ofDecimal opposite (Json.decimal (n.whole ++ n.fraction))
        ((n.exponent.map Exponent.toInt).getD 0 - n.fraction.length)) := by
  obtain ⟨d, ds, hw, hd⟩ := n.whole_cons
  have htrim : Text.trim (lowNumber n) = lowNumber n :=
    Number.trim_of_solid fun c hc => isBlank_of_numeric (numeric_lowNumber n c hc)
  have hsign : Number.splitSign (lowNumber n) = (false, lowNumber n) := by
    rw [lowNumber, hw]
    exact Number.splitSign_of_digit hd
  have hfirst : ((lowNumber n).map Char.toLower).head? = some d := by
    have hlower : d.toLower = d := by
      have hall : (numericChars.all fun c => c == 'E' || c.toLower == c) = true := by decide
      have hne : d ≠ 'E' := ne_of_isDigit hd (by decide)
      simpa [hne] using List.all_eq_true.mp hall d (numeric_of_isDigit hd)
    simp [lowNumber, hw, hlower]
  have hword (word : List Char) (x : Char) (t : List Char) (hx : word = x :: t)
      (hdig : x.isDigit = false) : ((lowNumber n).map Char.toLower == word) = false := by
    rw [beq_eq_false_iff_ne]
    rintro h
    rw [h, hx] at hfirst
    exact ne_of_isDigit hd hdig (Option.some.inj hfirst).symm
  have hempty : (n.whole.isEmpty && n.fraction.isEmpty) = false := by simp [hf]
  have hfraction : ((n.whole ++ '.' :: n.fraction).drop n.whole.length).drop 1 = n.fraction := by
    simp
  unfold readSigned?
  rw [htrim, hsign]
  simp only [hword "inf".toList 'i' _ rfl (by decide),
    hword "infinity".toList 'i' _ rfl (by decide),
    hword "nan".toList 'n' _ rfl (by decide), splitExponent_lowNumber, readExponent?_exponent,
    takeWhile_whole, hfraction, hempty, Bool.or_self, Bool.false_eq_true, if_false,
    Number.readDigits?_digits (whole_digits n).1, Number.readDigits?_digits n.isFraction,
    Option.bind_eq_bind, Option.bind_some, List.length_map, ← List.map_append,
    Number.foldl_digits, Bool.false_bne]
  rfl

theorem map_toLower_digits {s : List Char} (hs : s.all Char.isDigit = true) :
    s.map Char.toLower = s := by
  have hall : (numericChars.all fun c => c == 'E' || c.toLower == c) = true := by decide
  conv_rhs => rw [← List.map_id s]
  refine List.map_congr_left fun c hc => ?_
  have hd := List.all_eq_true.mp hs c hc
  have hne : c ≠ 'E' := ne_of_isDigit hd (by decide)
  simpa [hne] using List.all_eq_true.mp hall c (numeric_of_isDigit hd)

theorem map_toLower_text (hf : n.fraction ≠ []) :
    n.text.map Char.toLower = n.signText ++ lowNumber n := by
  have hsign : n.signText.map Char.toLower = n.signText := by
    unfold Numeral.signText
    split <;> rfl
  have hfraction : n.fractionText = '.' :: n.fraction := by
    unfold Numeral.fractionText
    split
    · next h => exact absurd h hf
    · rfl
  have hexponent : n.exponentText.map Char.toLower = lowExponent n := by
    unfold Numeral.exponentText lowExponent
    cases n.exponent with
    | none => rfl
    | some e =>
      have hm : e.mark.toLower = 'e' := by rcases e.isMark with hm | hm <;> rw [hm] <;> decide
      have hs : (Exponent.signText e.sign).map Char.toLower = Exponent.signText e.sign := by
        cases e.sign with
        | none => rfl
        | some minus => cases minus <;> rfl
      simp [Exponent.text, hm, hs, map_toLower_digits e.isDigits]
  simp [Numeral.text, Numeral.tailText, lowNumber, hsign, hfraction, hexponent,
    map_toLower_digits (whole_digits n).1, map_toLower_digits n.isFraction]

theorem lower_text (hf : n.fraction ≠ []) :
    (Text.lower (String.ofList n.text)).toList = n.signText ++ lowNumber n := by
  have hascii : (numericChars.all fun c => decide (c.toNat < 128)) = true := by decide
  rw [Text.lower, String.toList_ofList, String.toList_ofList, Text.lowerFrom_ascii,
    map_toLower_text n hf]
  intro c hc
  simpa using List.all_eq_true.mp hascii c (numeric_text n c hc)

theorem filter_numeric {s : List Char} (h : ∀ c ∈ s, c ∈ numericChars) :
    s.filter (· != '_') = s ∧ s.contains ':' = false := by
  have hall : (numericChars.all fun c => c != '_' && c != ':') = true := by decide
  have hc (c : Char) (hc : c ∈ s) : c ≠ '_' ∧ c ≠ ':' := by
    simpa using List.all_eq_true.mp hall c (h c hc)
  constructor
  · rw [List.filter_eq_self]
    intro c hm
    simpa using (hc c hm).1
  · rw [List.contains_eq_mem, decide_eq_false_iff_not]
    exact fun hm => (hc ':' hm).2 rfl

theorem float_text (hf : n.fraction ≠ []) : Scalar.float n.text =
    .ok (Number.ofDecimal n.negative (Json.decimal (n.whole ++ n.fraction))
      ((n.exponent.map Exponent.toInt).getD 0 - n.fraction.length)) := by
  obtain ⟨d, ds, hw, hd⟩ := n.whole_cons
  have hlow := numeric_lowNumber n
  have hall : ∀ c ∈ n.signText ++ lowNumber n, c ∈ numericChars := by
    intro c hc
    rcases List.mem_append.mp hc with hc | hc
    · exact numeric_text n c (List.mem_append_left _ hc)
    · exact hlow c hc
  have hmagnitude : Scalar.magnitude n.negative (lowNumber n) =
      .ok (Number.ofDecimal n.negative (Json.decimal (n.whole ++ n.fraction))
        ((n.exponent.map Exponent.toInt).getD 0 - n.fraction.length)) := by
    have hword (word : String) (t : List Char) (hx : word.toList = '.' :: t) :
        (String.ofList (lowNumber n) == word) = false := by
      rw [beq_eq_false_iff_ne]
      rintro rfl
      rw [String.toList_ofList, lowNumber, hw] at hx
      exact ne_of_isDigit hd (by decide) (List.cons.inj hx).1
    unfold Scalar.magnitude
    simp only [hword ".inf" _ rfl, hword ".nan" _ rfl, (filter_numeric hlow).2,
      readSigned?_lowNumber n hf, Bool.false_eq_true, if_false, Scalar.float?]
  unfold Scalar.float
  rw [lower_text n hf, (filter_numeric hall).1]
  unfold Numeral.signText
  cases hneg : n.negative with
  | true =>
    rw [hneg] at hmagnitude
    exact hmagnitude
  | false =>
    rw [hneg] at hmagnitude
    have hminus : d ≠ '-' := ne_of_isDigit hd (by decide)
    have hplus : d ≠ '+' := ne_of_isDigit hd (by decide)
    rw [if_neg (by simp), List.nil_append, ← hmagnitude, lowNumber, hw]
    split <;> simp_all

/-- Whether a number is spelled as YAML spells numbers: an exponent needs a point before it and a
sign. -/
def isPlainNumber (n : Numeral) : Bool :=
  n.isShort && match n.exponent with
    | none => true
    | some e => !n.fraction.isEmpty && e.sign.isSome

theorem dropSign_text : Bare.dropSign n.text = n.whole ++ n.tailText := by
  obtain ⟨d, ds, hw, hd⟩ := n.whole_cons
  have hminus : d ≠ '-' := ne_of_isDigit hd (by decide)
  have hplus : d ≠ '+' := ne_of_isDigit hd (by decide)
  unfold Numeral.text Numeral.signText
  cases n.negative with
  | true => rfl
  | false =>
    rw [if_neg (by simp), List.nil_append, hw]
    unfold Bare.dropSign
    split <;> simp_all

theorem ofBare_number (tag : ScalarTag) (htag : tag = .float ∨ tag = .int)
    (hf : Bare.isFloat n.text = decide (tag = .float))
    (hi : tag = .int → Bare.isInt n.text = true) :
    ScalarTag.ofBare (String.ofList n.text) = tag := by
  have hword : Bare.boolWords.contains (String.ofList n.text) = false := by
    have hfirst : (Bare.boolWords.all fun w =>
        w.toList.head?.any fun c => !numericChars.contains c || c == 'e') = true := by decide
    rw [List.contains_eq_mem, decide_eq_false_iff_not]
    intro hmem
    have hc := List.all_eq_true.mp hfirst _ hmem
    obtain ⟨d, ds, hw, hd⟩ := n.whole_cons
    have hnum : d ∈ numericChars := numeric_of_isDigit hd
    have hne : d ≠ 'e' := ne_of_isDigit hd (by decide)
    have hsign : '-' ∈ numericChars := by decide
    rw [String.toList_ofList, Numeral.text, Numeral.signText, hw] at hc
    cases hneg : n.negative with
    | true => simp [hneg, hsign] at hc
    | false => simp [hneg, hnum, hne] at hc
  unfold ScalarTag.ofBare
  simp only [hword, String.toList_ofList, hf, Bool.false_eq_true, if_false]
  rcases htag with rfl | rfl
  · simp
  · simp [hi rfl]

theorem isExponent_exponentText (h : isPlainNumber n = true) :
    Bare.isExponent n.exponentText = true := by
  simp only [isPlainNumber, Bool.and_eq_true] at h
  unfold Numeral.exponentText
  cases he : n.exponent with
  | none => rfl
  | some e =>
    simp only [he, Bool.and_eq_true] at h
    obtain ⟨d, ds, hd, -⟩ := e.digits_cons
    have hdigits := e.isDigits
    rw [hd] at hdigits
    have hmark : (e.mark == 'e' || e.mark == 'E') = true := by
      rcases e.isMark with hm | hm <;> simp [hm]
    obtain ⟨minus, hs⟩ := Option.isSome_iff_exists.mp h.2.2
    cases minus <;> simp [Exponent.text, Exponent.signText, hs, hd, Bare.isExponent, hmark] <;>
      simpa using hdigits

theorem isNumber_digits {s : List Char} (hs : s.all Char.isDigit = true) (hne : s ≠ []) :
    Bare.isNumber s = true := by
  obtain ⟨c, t, rfl⟩ := List.exists_cons_of_ne_nil hne
  rw [List.all_cons, Bool.and_eq_true] at hs
  rw [Bare.isNumber, hs.1, Bool.true_and, List.all_eq_true]
  intro x hx
  simp [Bare.isDigitOrLow, List.all_eq_true.mp hs.2 x hx]

theorem isFloat_text (h : isPlainNumber n = true) (hf : n.fraction ≠ []) :
    Bare.isFloat n.text = true := by
  have hw := whole_digits n
  have hfraction : n.tailText = '.' :: (n.fraction ++ n.exponentText) := by
    unfold Numeral.tailText Numeral.fractionText
    split
    · next hnil => exact absurd hnil hf
    · rfl
  have hdrop : (n.whole ++ '.' :: (n.fraction ++ n.exponentText)).drop n.whole.length =
      '.' :: (n.fraction ++ n.exponentText) := List.drop_left
  have hdigits : (n.fraction ++ n.exponentText).takeWhile Bare.isDigitOrLow = n.fraction := by
    have hpos : ∀ c ∈ n.fraction, Bare.isDigitOrLow c = true := fun c hc => by
      simp [Bare.isDigitOrLow, List.all_eq_true.mp n.isFraction c hc]
    have hstop : n.exponentText.takeWhile Bare.isDigitOrLow = [] := by
      unfold Numeral.exponentText
      cases n.exponent with
      | none => rfl
      | some e => rcases e.isMark with hm | hm <;> simp [Exponent.text, hm, Bare.isDigitOrLow]
    rw [List.takeWhile_append_of_pos hpos, hstop, List.append_nil]
  have hempty : n.whole.isEmpty = false := by simp [hw.2]
  unfold Bare.isFloat
  simp only [dropSign_text, hfraction, takeWhile_whole, hdrop, hdigits, hempty, List.drop_left,
    isNumber_digits hw.1 hw.2, isExponent_exponentText n h, Bool.false_eq_true, if_false, if_true]

theorem value_float (h : isPlainNumber n = true) (hf : n.fraction ≠ []) :
    Scalar.value (.scalar (ScalarTag.ofBare (String.ofList n.text))) (String.ofList n.text) =
      .ok n.toValue := by
  have hint : n.isInt = false := by simp [Numeral.isInt, hf]
  rw [ofBare_number n .float (.inl rfl) (by simpa using isFloat_text n h hf) (by simp)]
  simp only [Scalar.value, String.toList_ofList, float_text n hf, Numeral.toValue, hint]
  rfl

theorem natural_whole (hlen : n.whole.length ≤ Number.maxDigits) :
    Scalar.natural n.whole = .ok (Json.decimal n.whole : Int) := by
  have hw := whole_digits n
  have hread := Number.readInt?_digits hw.1 hw.2 hlen
  have hcolon := (filter_numeric fun c hc =>
    numeric_of_isDigit (List.all_eq_true.mp hw.1 c hc)).2
  rcases n.isWhole with hz | ⟨d, ds, hd, hne, -⟩
  · rw [hz]
    rfl
  · rw [hd] at hread hcolon ⊢
    unfold Scalar.natural
    split
    case h_6 => rw [hcolon, if_neg (by simp), hread, Scalar.number?]
    all_goals simp_all

theorem isInt_whole (h : Bare.dropSign n.text = n.whole) : Bare.isInt n.text = true := by
  have hw := whole_digits n
  have hsplit : Bare.splitColons n.whole = [n.whole] := by
    refine List.splitOnP_eq_singleton fun c hc => ?_
    have hne : c ≠ ':' := ne_of_isDigit (List.all_eq_true.mp hw.1 c hc) (by decide)
    simpa using hne
  unfold Bare.isInt
  simp only [h]
  rcases n.isWhole with hz | ⟨d, ds, hd, hne, hdigits⟩
  · rw [hz]
    rfl
  · have hnumber := isNumber_digits hw.1 hw.2
    rw [hd] at hsplit hnumber ⊢
    rw [List.all_cons, Bool.and_eq_true] at hdigits
    split <;> simp_all

theorem value_int (h : isPlainNumber n = true) (hf : n.fraction = []) :
    Scalar.value (.scalar (ScalarTag.ofBare (String.ofList n.text))) (String.ofList n.text) =
      .ok n.toValue := by
  simp only [isPlainNumber, Bool.and_eq_true] at h
  have he : n.exponent = none := by
    cases he : n.exponent with
    | none => rfl
    | some e => simp [he, hf] at h
  have hint : n.isInt = true := by simp [Numeral.isInt, hf, he]
  have hlen : n.whole.length ≤ Number.maxDigits := by simpa [Numeral.isShort, hint] using h.1
  have htail : n.tailText = [] := by
    simp [Numeral.tailText, Numeral.fractionText, Numeral.exponentText, hf, he]
  have hdrop : Bare.dropSign n.text = n.whole := by rw [dropSign_text, htail, List.append_nil]
  have hfloat : Bare.isFloat n.text = false := by
    have hpoint : n.whole.takeWhile (· != '.') = n.whole := by
      rw [← List.append_nil n.whole, List.takeWhile_append_of_pos]
      · simp
      · intro c hc
        have hne : c ≠ '.' :=
          ne_of_isDigit (List.all_eq_true.mp (whole_digits n).1 c hc) (by decide)
        simpa using hne
    unfold Bare.isFloat
    simp only [hdrop, hpoint, List.drop_length]
  have hread : Scalar.int n.text =
      .ok (if n.negative then -(Json.decimal n.whole : Int) else Json.decimal n.whole) := by
    obtain ⟨d, ds, hw, hd⟩ := n.whole_cons
    have hnatural := natural_whole n hlen
    unfold Scalar.int
    rw [(filter_numeric (numeric_text n)).1, Numeral.text, htail, List.append_nil]
    unfold Numeral.signText
    cases n.negative with
    | true =>
      simp only [if_true, List.singleton_append, hnatural]
      rfl
    | false =>
      have hminus : d ≠ '-' := ne_of_isDigit hd (by decide)
      have hplus : d ≠ '+' := ne_of_isDigit hd (by decide)
      rw [if_neg (by simp), List.nil_append, if_neg (by simp), ← hnatural, hw]
      split <;> simp_all
  rw [ofBare_number n .int (.inr rfl) (by simpa using hfloat) fun _ => isInt_whole n hdrop]
  simp only [Scalar.value, String.toList_ofList, hread, Numeral.toValue, hint]
  rfl

/-- A number spelled as YAML spells numbers is read as the number it is. -/
theorem value_number (h : isPlainNumber n = true) :
    Scalar.value (.scalar (ScalarTag.ofBare (String.ofList n.text))) (String.ofList n.text) =
      .ok n.toValue := by
  by_cases hf : n.fraction = []
  · exact value_int n h hf
  · exact value_float n h hf

end Numbers

end Yaml

end RouteBook
