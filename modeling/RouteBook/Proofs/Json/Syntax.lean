import RouteBook.Json.Reader

/-! Documents of the standard grammar as trees: how strings, numbers and white space are spelled is
part of the tree. The leaves of a tree are read as what they stand for. -/
namespace RouteBook.Json

abbrev Gap : Type := { s : List Char // s.all isSpace = true }

/-- How one code point of a string is spelled. -/
inductive Spelling where
  | raw (c : Char) (h : 32 ≤ c.toNat ∧ c ≠ '"' ∧ c ≠ '\\')
  | letter (c ch : Char) (h : letterEscape? c = some ch)
  | code (a b c d : Char) (h : [a, b, c, d].all Text.isHex = true)

namespace Spelling

def text : Spelling → List Char
  | raw c _ => [c]
  | letter c _ _ => ['\\', c]
  | code a b c d _ => ['\\', 'u', a, b, c, d]

def codePoint : Spelling → Nat
  | raw c _ => c.toNat
  | letter _ ch _ => ch.toNat
  | code a b c d _ => Text.hexNumber [a, b, c, d]

end Spelling

def quotedText (s : List Spelling) : List Char := '"' :: (s.flatMap Spelling.text ++ ['"'])

def codePoints (s : List Spelling) : List Nat := s.map Spelling.codePoint

structure Exponent where
  mark : Char
  /-- Whether there is a sign, and whether it is a minus. -/
  sign : Option Bool
  digits : List Char
  isMark : mark = 'e' ∨ mark = 'E'
  isDigits : digits.all Char.isDigit = true
  nonempty : digits ≠ []

namespace Exponent

def signText : Option Bool → List Char
  | none => []
  | some true => ['-']
  | some false => ['+']

def text (e : Exponent) : List Char := e.mark :: (signText e.sign ++ e.digits)

def toInt (e : Exponent) : Int :=
  let n : Int := decimal e.digits
  if e.sign = some true then -n else n

end Exponent

/-- A number as it is spelled; without digits after the point there is no point. -/
structure Numeral where
  negative : Bool
  whole : List Char
  fraction : List Char
  exponent : Option Exponent
  isWhole : whole = ['0'] ∨ ∃ d ds, whole = d :: ds ∧ d ≠ '0' ∧ (d :: ds).all Char.isDigit = true
  isFraction : fraction.all Char.isDigit = true

namespace Numeral

def signText (n : Numeral) : List Char := if n.negative then ['-'] else []

def fractionText (n : Numeral) : List Char :=
  match n.fraction with
  | [] => []
  | ds => '.' :: ds

def exponentText (n : Numeral) : List Char := (n.exponent.map Exponent.text).getD []

def tailText (n : Numeral) : List Char := n.fractionText ++ n.exponentText

def text (n : Numeral) : List Char := n.signText ++ (n.whole ++ n.tailText)

/-- Whether the number has neither a point nor an exponent. -/
def isInt (n : Numeral) : Bool := n.fraction.isEmpty && n.exponent.isNone

def toValue (n : Numeral) : Value :=
  if n.isInt then
    let m : Int := decimal n.whole
    .int (if n.negative then -m else m)
  else
    .float (Number.ofDecimal n.negative (decimal (n.whole ++ n.fraction))
      ((n.exponent.map Exponent.toInt).getD 0 - n.fraction.length))

/-- Whether the number is none of the whole ones that are too long to be read. -/
def isShort (n : Numeral) : Bool := !n.isInt || decide (n.whole.length ≤ Number.maxDigits)

end Numeral

mutual
inductive Tree where
  | null
  | bool (b : Bool)
  | number (n : Numeral)
  | string (s : List Spelling)
  | emptyList (gap : Gap)
  | list (items : Items)
  | emptyMap (gap : Gap)
  | map (members : Members)
inductive Items where
  | last (before : Gap) (v : Tree) (after : Gap)
  | next (before : Gap) (v : Tree) (after : Gap) (rest : Items)
inductive Members where
  | last (before : Gap) (key : List Spelling) (middle ahead : Gap) (v : Tree) (after : Gap)
  | next (before : Gap) (key : List Spelling) (middle ahead : Gap) (v : Tree) (after : Gap)
      (rest : Members)
end

mutual
def Tree.spell (f : List Char → List Char) : Tree → List Char
  | .null => "null".toList
  | .bool true => "true".toList
  | .bool false => "false".toList
  | .number n => n.text
  | .string s => quotedText s
  | .emptyList gap => '[' :: (f gap.1 ++ [']'])
  | .list items => '[' :: (items.spell f ++ [']'])
  | .emptyMap gap => '\x7b' :: (f gap.1 ++ ['\x7d'])
  | .map members => '\x7b' :: (members.spell f ++ ['\x7d'])
def Items.spell (f : List Char → List Char) : Items → List Char
  | .last before v after => f before.1 ++ (v.spell f ++ f after.1)
  | .next before v after rest =>
    f before.1 ++ (v.spell f ++ (f after.1 ++ ',' :: rest.spell f))
def Members.spell (f : List Char → List Char) : Members → List Char
  | .last before key middle ahead v after =>
    f before.1 ++ (quotedText key ++ (f middle.1 ++ ':' :: (f ahead.1 ++ (v.spell f ++ f after.1))))
  | .next before key middle ahead v after rest =>
    f before.1 ++ (quotedText key ++ (f middle.1 ++ ':' :: (f ahead.1 ++
      (v.spell f ++ (f after.1 ++ ',' :: rest.spell f)))))
end

mutual
/-- The value that a tree stands for; the last of several values for one key counts. -/
def Tree.toValue : Tree → Value
  | .null => .null
  | .bool b => .bool b
  | .number n => n.toValue
  | .string s => textOf (codePoints s)
  | .emptyList _ => .list []
  | .list items => .list items.toValues
  | .emptyMap _ => .map []
  | .map members => .map (Pairs.ofList members.toEntries)
def Items.toValues : Items → List Value
  | .last _ v _ => [v.toValue]
  | .next _ v _ rest => v.toValue :: rest.toValues
def Members.toEntries : Members → List (Value × Value)
  | .last _ key _ _ v _ => [(textOf (codePoints key), v.toValue)]
  | .next _ key _ _ v _ rest => (textOf (codePoints key), v.toValue) :: rest.toEntries
end

/-- Conditions on the parts of a tree; the one on a key regards the gap after it as well. -/
structure Rules where
  number : Numeral → Bool := fun _ => true
  string : List Spelling → Bool := fun _ => true
  key : List Spelling → Gap → Bool := fun _ _ => true
  gap : Gap → Bool := fun _ => true

mutual
def Tree.obeys (r : Rules) : Tree → Bool
  | .null => true
  | .bool _ => true
  | .number n => r.number n
  | .string s => r.string s
  | .emptyList gap => r.gap gap
  | .list items => items.obeys r
  | .emptyMap gap => r.gap gap
  | .map members => members.obeys r
def Items.obeys (r : Rules) : Items → Bool
  | .last before v after => r.gap before && v.obeys r && r.gap after
  | .next before v after rest => r.gap before && v.obeys r && r.gap after && rest.obeys r
def Members.obeys (r : Rules) : Members → Bool
  | .last before k middle ahead v after =>
    r.gap before && r.key k middle && r.gap ahead && v.obeys r && r.gap after
  | .next before k middle ahead v after rest =>
    r.gap before && r.key k middle && r.gap ahead && v.obeys r && r.gap after && rest.obeys r
end

structure Rules.Implies (r r' : Rules) : Prop where
  number : ∀ n, r.number n = true → r'.number n = true
  string : ∀ s, r.string s = true → r'.string s = true
  key : ∀ k g, r.key k g = true → r'.key k g = true
  gap : ∀ g, r.gap g = true → r'.gap g = true

section Implies
variable {r r' : Rules}

mutual

theorem Tree.obeys_mono (h : r.Implies r') : ∀ t : Tree, t.obeys r = true → t.obeys r' = true
  | .null, _ => rfl
  | .bool _, _ => rfl
  | .number n, ht => h.number n ht
  | .string s, ht => h.string s ht
  | .emptyList g, ht => h.gap g ht
  | .list items, ht => Items.obeys_mono h items ht
  | .emptyMap g, ht => h.gap g ht
  | .map members, ht => Members.obeys_mono h members ht

theorem Items.obeys_mono (h : r.Implies r') : ∀ items : Items, items.obeys r = true →
    items.obeys r' = true
  | .last before v after, ht => by
    simp only [Items.obeys, Bool.and_eq_true] at ht ⊢
    exact ⟨⟨h.gap _ ht.1.1, Tree.obeys_mono h v ht.1.2⟩, h.gap _ ht.2⟩
  | .next before v after rest, ht => by
    simp only [Items.obeys, Bool.and_eq_true] at ht ⊢
    exact ⟨⟨⟨h.gap _ ht.1.1.1, Tree.obeys_mono h v ht.1.1.2⟩, h.gap _ ht.1.2⟩,
      Items.obeys_mono h rest ht.2⟩

theorem Members.obeys_mono (h : r.Implies r') : ∀ members : Members, members.obeys r = true →
    members.obeys r' = true
  | .last before k middle ahead v after, ht => by
    simp only [Members.obeys, Bool.and_eq_true] at ht ⊢
    obtain ⟨⟨⟨⟨hbefore, hkey⟩, hahead⟩, hv⟩, hafter⟩ := ht
    exact ⟨⟨⟨⟨h.gap _ hbefore, h.key _ _ hkey⟩, h.gap _ hahead⟩, Tree.obeys_mono h v hv⟩,
      h.gap _ hafter⟩
  | .next before k middle ahead v after rest, ht => by
    simp only [Members.obeys, Bool.and_eq_true] at ht ⊢
    obtain ⟨⟨⟨⟨⟨hbefore, hkey⟩, hahead⟩, hv⟩, hafter⟩, hrest⟩ := ht
    exact ⟨⟨⟨⟨⟨h.gap _ hbefore, h.key _ _ hkey⟩, h.gap _ hahead⟩, Tree.obeys_mono h v hv⟩,
      h.gap _ hafter⟩, Members.obeys_mono h rest hrest⟩

end

end Implies

abbrev Tree.text (t : Tree) : List Char := t.spell id

/-- The only rule for reading: no whole number is too long. -/
def shortNumbers : Rules := { number := Numeral.isShort }

section Strings
variable (start rest : List Char)

theorem stringCodes_unicode (start : List Char) {a b c d : Char} {t : List Char} (ht : t ≠ [])
    (h : [a, b, c, d].all Text.isHex = true) :
    stringCodes start ('\\' :: 'u' :: a :: b :: c :: d :: t) =
      (fun r => (Text.hexNumber [a, b, c, d] :: r.1, r.2)) <$> stringCodes start t := by
  have hf : fourDigits? (a :: b :: c :: d :: t) = some (Text.hexNumber [a, b, c, d], t) := by
    simp only [fourDigits?, h, Bool.true_and]
    simp [ht]
  rw [stringCodes, hf]
  rfl

theorem stringCodes_letter (start : List Char) {c ch : Char} (t : List Char) (hu : c ≠ 'u')
    (h : letterEscape? c = some ch) :
    stringCodes start ('\\' :: c :: t) =
      (fun r => (ch.toNat :: r.1, r.2)) <$> stringCodes start t := by
  rw [stringCodes, h]
  · rfl
  all_goals simp_all

theorem stringCodes_plain (start : List Char) {c : Char} (t : List Char) (hq : c ≠ '"')
    (hb : c ≠ '\\') (h : ¬ c.toNat < 32) :
    stringCodes start (c :: t) = (fun r => (c.toNat :: r.1, r.2)) <$> stringCodes start t := by
  rw [stringCodes, if_neg h]
  · rfl
  all_goals simp_all

theorem stringCodes_spelling (s : Spelling) {t : List Char} (ht : t ≠ []) :
    stringCodes start (s.text ++ t) =
      (fun r => (s.codePoint :: r.1, r.2)) <$> stringCodes start t := by
  cases s with
  | raw c h => exact stringCodes_plain start t h.2.1 h.2.2 (by omega)
  | letter c ch h =>
    refine stringCodes_letter start t ?_ h
    rintro rfl
    cases h
  | code a b c d h => exact stringCodes_unicode start ht h

theorem stringCodes_spellings (s : List Spelling) :
    stringCodes start (s.flatMap Spelling.text ++ '"' :: rest) = .ok (codePoints s, rest) := by
  induction s with
  | nil => simp [stringCodes, codePoints]
  | cons x s ih =>
    rw [List.flatMap_cons, List.append_assoc, stringCodes_spelling start x (by simp), ih]
    rfl

theorem string_quotedText (s : List Spelling) :
    string (s.flatMap Spelling.text ++ '"' :: rest) = .ok (textOf (codePoints s), rest) := by
  rw [string, stringCodes_spellings]
  rfl

end Strings

section Numbers
variable {rest : List Char}

def Opens (c : Char) : Prop := isSpace c = false ∧ c ≠ ']' ∧ c ≠ '\uFEFF'

def NoDigit (rest : List Char) : Prop := ∀ c t, rest = c :: t → c.isDigit = false

structure EndsNumber (rest : List Char) : Prop where
  noDigit : NoDigit rest
  noMark : ∀ c t, rest = c :: t → c ≠ '.' ∧ c ≠ 'e' ∧ c ≠ 'E'

theorem takeWhile_digits {ds : List Char} (hd : ds.all Char.isDigit = true) (h : NoDigit rest) :
    (ds ++ rest).takeWhile Char.isDigit = ds := by
  have hstop : rest.takeWhile Char.isDigit = [] := by
    cases rest with
    | nil => rfl
    | cons c t => simp [h c t rfl]
  rw [List.takeWhile_append_of_pos (by simpa using hd), hstop, List.append_nil]

theorem Exponent.digits_cons (e : Exponent) :
    ∃ d ds, e.digits = d :: ds ∧ d.isDigit = true := by
  obtain ⟨d, ds, hd⟩ := List.exists_cons_of_ne_nil e.nonempty
  have hall := e.isDigits
  rw [hd, List.all_cons, Bool.and_eq_true] at hall
  exact ⟨d, ds, hd, hall.1⟩

theorem exponent_text (e : Exponent) (h : NoDigit rest) :
    exponent (e.text ++ rest) = (some e.toInt, rest) := by
  have hmark : (e.mark == 'e' || e.mark == 'E') = true := by
    rcases e.isMark with hm | hm <;> simp [hm]
  have hdigits := takeWhile_digits e.isDigits h
  obtain ⟨d, ds, hd, hdig⟩ := e.digits_cons
  have hne : d ≠ '-' ∧ d ≠ '+' := by
    constructor <;> rintro rfl <;> exact absurd hdig (by decide)
  unfold exponent Exponent.text Exponent.toInt
  rw [hd] at hdigits ⊢
  cases e.sign with
  | none => simp_all [Exponent.signText, List.cons_append]
  | some minus => cases minus <;> simp_all [Exponent.signText]

theorem exponent_none (h : EndsNumber rest) : exponent rest = (none, rest) := by
  cases rest with
  | nil => rfl
  | cons c t =>
    obtain ⟨-, he, hE⟩ := h.noMark c t rfl
    simp [exponent, he, hE]

/-- The exponent of a numeral, where there is one. -/
theorem exponent_exponentText (n : Numeral) (h : EndsNumber rest) :
    exponent (n.exponentText ++ rest) = (n.exponent.map Exponent.toInt, rest) := by
  unfold Numeral.exponentText
  cases n.exponent with
  | none => exact exponent_none h
  | some e => exact exponent_text e h.noDigit

theorem noDigit_exponentText (n : Numeral) (h : EndsNumber rest) :
    NoDigit (n.exponentText ++ rest) := by
  unfold Numeral.exponentText
  cases n.exponent with
  | none => exact h.noDigit
  | some e =>
    rintro c t hc
    obtain ⟨rfl, -⟩ := List.cons.inj hc
    rcases e.isMark with hm | hm <;> rw [hm] <;> decide

theorem fraction_tailText (n : Numeral) (h : EndsNumber rest) :
    fraction (n.tailText ++ rest) = (n.fraction, n.exponentText ++ rest) := by
  have hdigits := takeWhile_digits n.isFraction (noDigit_exponentText n h)
  unfold Numeral.tailText Numeral.fractionText
  rw [List.append_assoc]
  cases hf : n.fraction with
  | nil =>
    have hpoint : ∀ t, n.exponentText ++ rest ≠ '.' :: t := by
      intro t ht
      unfold Numeral.exponentText at ht
      cases he : n.exponent with
      | none =>
        rw [he] at ht
        exact (h.noMark '.' t ht).1 rfl
      | some e =>
        rw [he] at ht
        have hm : e.mark = '.' := (List.cons.inj ht).1
        rcases e.isMark with hm' | hm' <;> rw [hm] at hm' <;> exact absurd hm' (by decide)
    unfold fraction
    split
    · next t ht => exact absurd ht (hpoint t)
    · rfl
  | cons d ds =>
    rw [hf, List.cons_append] at hdigits
    simp [fraction, hdigits]

theorem noDigit_tailText (n : Numeral) (h : EndsNumber rest) : NoDigit (n.tailText ++ rest) := by
  have hexp := noDigit_exponentText n h
  unfold Numeral.tailText Numeral.fractionText
  rw [List.append_assoc]
  cases n.fraction with
  | nil => exact hexp
  | cons d ds =>
    rintro c t hc
    obtain ⟨rfl, -⟩ := List.cons.inj hc
    decide

theorem wholeDigits_whole (n : Numeral) (h : NoDigit rest) :
    wholeDigits (n.whole ++ rest) = n.whole := by
  rcases n.isWhole with hz | ⟨d, ds, hw, hne, hd⟩
  · rw [hz]
    rfl
  · have hdigits := takeWhile_digits hd h
    rw [hw]
    unfold wholeDigits
    split
    · next hs => exact absurd (List.cons.inj hs).1 hne
    · exact hdigits

theorem Numeral.whole_cons (n : Numeral) : ∃ d ds, n.whole = d :: ds ∧ d.isDigit = true := by
  rcases n.isWhole with hz | ⟨d, ds, hw, -, hd⟩
  · exact ⟨'0', [], hz, by decide⟩
  · rw [List.all_cons, Bool.and_eq_true] at hd
    exact ⟨d, ds, hw, hd.1⟩

/-- A number is read from its three parts, unless it is too long. -/
theorem number_of_parts (n : Numeral) (start : List Char) {s tail : List Char}
    (hw : wholeDigits s = n.whole) (hf : fraction (s.drop n.whole.length) = (n.fraction, tail))
    (he : exponent tail = (n.exponent.map Exponent.toInt, rest)) :
    number start n.negative s =
      if n.isShort then .ok (n.toValue, rest) else fail .tooManyDigits start := by
  obtain ⟨d, ds, hcons, -⟩ := n.whole_cons
  have hexp : (n.exponent.map Exponent.toInt).isNone = n.exponent.isNone := by simp
  unfold number
  rw [hw]
  split
  · next hnil => simp [hcons] at hnil
  · rw [hf]
    dsimp only
    rw [he]
    dsimp only
    rw [hexp]
    unfold Numeral.toValue Numeral.isShort Numeral.isInt
    split
    · next hint =>
      by_cases hlen : n.whole.length ≤ Number.maxDigits
      · simp [hint, hlen, Nat.not_lt.mpr hlen]
      · simp [hint, hlen, Nat.lt_of_not_le hlen]
    · next hint => simp [hint]

theorem number_text (n : Numeral) (start : List Char) (h : EndsNumber rest) :
    number start n.negative (n.whole ++ (n.tailText ++ rest)) =
      if n.isShort then .ok (n.toValue, rest) else fail .tooManyDigits start := by
  refine number_of_parts n start (wholeDigits_whole n (noDigit_tailText n h)) ?_
    (exponent_exponentText n h)
  rw [List.drop_left, fraction_tailText n h]

theorem find_words (n : Numeral) :
    (words.find? fun w => w.1.isPrefixOf (n.text ++ rest)) = none := by
  obtain ⟨d, ds, hw, hd⟩ := n.whole_cons
  have hne : ∀ x : Char, x.isDigit = false → x ≠ d := by
    rintro x hx rfl
    rw [hd] at hx
    cases hx
  unfold Numeral.text Numeral.signText
  rw [hw]
  cases n.negative with
  | true => simp [words, List.isPrefixOf, hne 'I' (by decide)]
  | false =>
    simp [words, List.isPrefixOf, hne 'n' (by decide), hne 't' (by decide), hne 'f' (by decide),
      hne 'N' (by decide), hne 'I' (by decide), hne '-' (by decide)]

theorem atom_number (n : Numeral) (h : EndsNumber rest) : atom (n.text ++ rest) =
    if n.isShort then .ok (n.toValue, rest) else fail .tooManyDigits (n.text ++ rest) := by
  have hnumber := number_text n (n.text ++ rest) h
  obtain ⟨d, ds, hw, hd⟩ := n.whole_cons
  unfold atom
  rw [find_words, ← hnumber]
  have htext : n.text ++ rest =
      (if n.negative then ['-'] else []) ++ (n.whole ++ (n.tailText ++ rest)) := by
    rw [Numeral.text, List.append_assoc, List.append_assoc]
    rfl
  cases hneg : n.negative with
  | true =>
    rw [htext, hneg]
    rfl
  | false =>
    have hminus : ∀ t, n.whole ++ (n.tailText ++ rest) ≠ '-' :: t := by
      intro t ht
      rw [hw] at ht
      rw [(List.cons.inj ht).1] at hd
      exact absurd hd (by decide)
    rw [hneg, if_neg (by simp), List.nil_append] at htext
    rw [htext]
    dsimp only
    split
    · next t ht => exact absurd ht (hminus t)
    · rfl

theorem endsNumber_cons {c : Char} {s : List Char}
    (h : isSpace c = true ∨ c = ',' ∨ c = ']' ∨ c = '\x7d') : EndsNumber (c :: s) := by
  have hends : c.isDigit = false ∧ c ≠ '.' ∧ c ≠ 'e' ∧ c ≠ 'E' := by
    rcases h with hc | rfl | rfl | rfl
    · simp only [isSpace, Bool.or_eq_true, beq_iff_eq] at hc
      rcases hc with ((rfl | rfl) | rfl) | rfl <;> decide
    all_goals decide
  refine ⟨?_, ?_⟩
  · rintro _ _ ⟨⟩
    exact hends.1
  · rintro _ _ ⟨⟩
    exact hends.2

theorem endsNumber_gap (gap : Gap) {c : Char} {s : List Char}
    (hc : c = ',' ∨ c = ']' ∨ c = '\x7d') : EndsNumber (gap.1 ++ c :: s) := by
  obtain ⟨g, hg⟩ := gap
  cases g with
  | nil => exact endsNumber_cons (.inr hc)
  | cons y g =>
    rw [List.all_cons, Bool.and_eq_true] at hg
    exact endsNumber_cons (.inl hg.1)

theorem endsNumber_only (gap : Gap) : EndsNumber gap.1 := by
  obtain ⟨g, hg⟩ := gap
  cases g with
  | nil => exact ⟨fun _ _ h => (List.cons_ne_nil _ _ h.symm).elim,
      fun _ _ h => (List.cons_ne_nil _ _ h.symm).elim⟩
  | cons y g =>
    rw [List.all_cons, Bool.and_eq_true] at hg
    exact endsNumber_cons (.inl hg.1)

theorem Numeral.text_cons (n : Numeral) : ∃ c u, n.text = c :: u ∧ Opens c ∧ c ≠ '\n' ∧
    c ≠ '"' ∧ c ≠ '\x7b' ∧ c ≠ '[' := by
  obtain ⟨d, ds, hw, hd⟩ := n.whole_cons
  have hne : ∀ x : Char, x.isDigit = false → d ≠ x := by
    rintro x hx rfl
    rw [hd] at hx
    cases hx
  rw [Numeral.text, Numeral.signText, hw]
  cases n.negative with
  | true => exact ⟨'-', _, rfl, ⟨by decide, by decide, by decide⟩, by decide⟩
  | false =>
    refine ⟨d, _, rfl, ⟨?_, hne _ (by decide), hne _ (by decide)⟩, hne _ (by decide),
      hne _ (by decide), hne _ (by decide), hne _ (by decide)⟩
    simp [isSpace, hne ' ' (by decide), hne '\t' (by decide), hne '\n' (by decide),
      hne '\r' (by decide)]

end Numbers

section Trees

theorem Tree.spell_cons (f : List Char → List Char) (t : Tree) :
    ∃ c u, t.spell f = c :: u ∧ Opens c ∧ c ≠ '\n' := by
  cases t with
  | null => exact ⟨_, _, rfl, ⟨by decide, by decide, by decide⟩, by decide⟩
  | bool b => cases b <;> exact ⟨_, _, rfl, ⟨by decide, by decide, by decide⟩, by decide⟩
  | number n =>
    obtain ⟨c, u, hc, ho, hn, -⟩ := n.text_cons
    exact ⟨c, u, hc, ho, hn⟩
  | string s => exact ⟨'"', _, rfl, ⟨by decide, by decide, by decide⟩, by decide⟩
  | emptyList gap => exact ⟨'[', _, rfl, ⟨by decide, by decide, by decide⟩, by decide⟩
  | list items => exact ⟨'[', _, rfl, ⟨by decide, by decide, by decide⟩, by decide⟩
  | emptyMap gap => exact ⟨'\x7b', _, rfl, ⟨by decide, by decide, by decide⟩, by decide⟩
  | map members => exact ⟨'\x7b', _, rfl, ⟨by decide, by decide, by decide⟩, by decide⟩

/-- A document: a value with white space around it. -/
structure Document where
  before : Gap
  root : Tree
  after : Gap

def Document.obeys (r : Rules) (d : Document) : Bool :=
  r.gap d.before && d.root.obeys r && r.gap d.after

def Tree.isObject : Tree → Bool
  | .emptyMap _ => true
  | .map _ => true
  | _ => false

def Document.spell (f : List Char → List Char) (d : Document) : List Char :=
  f d.before.1 ++ (d.root.spell f ++ f d.after.1)

abbrev Document.text (d : Document) : List Char := d.spell id

end Trees

end RouteBook.Json
