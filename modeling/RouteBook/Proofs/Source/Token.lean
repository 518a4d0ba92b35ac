import RouteBook.Proofs.Source.Cursor
import RouteBook.Proofs.Spelling
import RouteBook.Source.Token

/-! Names and string literals in a text of characters. -/
namespace RouteBook.Source
variable {a : Char} {s t w : List Char} {token : String} {pos : Nat}

def isNameStart (a : Char) : Bool := a.isAlpha || a == '_' || a == '$'

def isNameChar (a : Char) : Bool := isNameStart a || a.isDigit

def isName : List Char → Bool
  | [] => false
  | a :: w => isNameStart a && w.all isNameChar

theorem toNat_of_isDigit (h : a.isDigit = true) : 48 ≤ a.toNat ∧ a.toNat ≤ 57 := by
  simpa [Char.isDigit, UInt32.le_iff_toNat_le] using h

theorem toNat_of_isAlpha (h : a.isAlpha = true) :
    65 ≤ a.toNat ∧ a.toNat ≤ 90 ∨ 97 ≤ a.toNat ∧ a.toNat ≤ 122 := by
  delta Char.isAlpha Char.isUpper Char.isLower at h
  simpa [UInt32.le_iff_toNat_le] using h

theorem toNat_of_isNameStart (h : isNameStart a = true) :
    65 ≤ a.toNat ∧ a.toNat ≤ 90 ∨ 97 ≤ a.toNat ∧ a.toNat ≤ 122 ∨ a.toNat = 95 ∨ a.toNat = 36 := by
  simp only [isNameStart, Bool.or_eq_true, beq_iff_eq] at h
  rcases h with (h | rfl) | rfl
  · have hletter := toNat_of_isAlpha h
    omega
  · decide
  · decide

theorem toNat_of_isNameChar (h : isNameChar a = true) :
    48 ≤ a.toNat ∧ a.toNat ≤ 57 ∨ 65 ≤ a.toNat ∧ a.toNat ≤ 90 ∨ 97 ≤ a.toNat ∧ a.toNat ≤ 122 ∨
      a.toNat = 95 ∨ a.toNat = 36 := by
  rw [isNameChar, Bool.or_eq_true] at h
  rcases h with h | h
  · exact .inr (toNat_of_isNameStart h)
  · exact .inl (toNat_of_isDigit h)

theorem isWordChar_of_isNameChar (h : isNameChar a = true) : isWordChar a = true := by
  have hn := toNat_of_isNameChar h
  have hmark : ∀ b ∈ marks, isNameChar b = false := List.all_iff_forall_prop.mp (by decide)
  have hspace : isSpace a = false := by
    simp only [isSpace, Bool.or_eq_false_iff, Bool.and_eq_false_iff, decide_eq_false_iff_not,
      beq_eq_false_iff_ne]
    omega
  have hnone : a ∉ marks := fun ha => by simp [hmark a ha] at h
  simp [isWordChar, hspace, hnone]
  omega

def EndsWord (s : List Char) : Prop := ∀ a ∈ s.head?, isWordChar a = false ∧ a ≠ '\\'

theorem endsWord_cons (h : isWordChar a = false ∧ a ≠ '\\') (s : List Char) :
    EndsWord (a :: s) := by
  intro b hb
  obtain rfl : a = b := by simpa using hb
  exact h

theorem wordLength_ofChars (hw : ∀ a ∈ w, isWordChar a = true) (hs : EndsWord s) :
    wordLength 0 (Text.ofChars (w ++ s)) = w.length := by
  induction w with
  | nil =>
    cases s with
    | nil => rfl
    | cons a s =>
      obtain ⟨ha, hb⟩ := hs a (by simp)
      change (if 0 < 0 then _ else if isWordChar a then _ else if (a == '\\') then _ else 0) = 0
      rw [ha]
      simp [hb]
  | cons a w ih =>
    change (if 0 < 0 then _ else if isWordChar a then
      wordLength 0 (Text.ofChars (w ++ s)) + 1 else _) = _
    rw [hw a (by simp), ih fun b hb => hw b (by simp [hb])]
    simp

theorem isName_cases (h : isName w = true) : ∃ a t, w = a :: t ∧ isNameStart a = true ∧
    ∀ b ∈ w, isNameChar b = true := by
  cases w with
  | nil => cases h
  | cons a t =>
    simp only [isName, Bool.and_eq_true, List.all_eq_true] at h
    refine ⟨a, t, rfl, h.1, fun b hb => ?_⟩
    rcases List.mem_cons.mp hb with rfl | hb
    · rw [isNameChar, h.1, Bool.true_or]
    · exact h.2 b hb

theorem isNameChar_of_isNameStart (h : isNameStart a = true) : isNameChar a = true := by
  rw [isNameChar, h, Bool.true_or]

theorem not_isDigit_of_isNameStart (h : isNameStart a = true) : a.isDigit = false := by
  rw [Bool.eq_false_iff]
  intro hd
  have hdigit := toNat_of_isDigit hd
  have hstart := toNat_of_isNameStart h
  omega

theorem fresh_of_isNameStart (h : isNameStart a = true) (s : List Char) : Fresh (a :: s) := by
  have hspace : isSpace a = false := by
    have hword := isWordChar_of_isNameChar (isNameChar_of_isNameStart h)
    simp only [isWordChar, Bool.and_eq_true, Bool.not_eq_true'] at hword
    exact hword.1.2
  have hne (b : Char) (hb : isNameStart b = false) : a ≠ b := by
    rintro rfl
    rw [h] at hb
    cases hb
  refine ⟨fun x hx => ?_, fun x hx => ?_⟩
  · obtain rfl : a = x := by simpa using hx
    exact ⟨hspace, hne '/' (by decide)⟩
  · obtain rfl : a = x := by simpa using hx
    exact ⟨hne '<' (by decide), hne '-' (by decide)⟩

def isSign (token : String) : Bool :=
  match token.toList with
  | [] => false
  | b :: _ => !isNameStart b

theorem misses_of_isNameStart (h : isNameStart a = true) (ht : isSign token = true) :
    misses token a = true := by
  cases hb : token.toList with
  | nil => simp [isSign, hb] at ht
  | cons b t =>
    have hnot : isNameStart b = false := by simpa [isSign, hb] using ht
    have hne : a ≠ b := by
      rintro rfl
      rw [h] at hnot
      cases hnot
    simpa [misses, hb] using hne

theorem wordAt_name (hw : isName w = true) (hs : EndsWord s) :
    wordAt (Text.ofChars (w ++ s)) = String.ofList w := by
  obtain ⟨a, t, rfl, ha, hall⟩ := isName_cases hw
  have hlen := wordLength_ofChars (fun b hb => isWordChar_of_isNameChar (hall b hb)) hs
  have hdigit : headIs Char.isDigit (Text.ofChars (a :: t ++ s)) = false :=
    not_isDigit_of_isNameStart ha
  have htake : (Text.ofChars (a :: t ++ s)).take (a :: t).length = Text.ofChars (a :: t) := by
    simp [Text.ofChars]
  rw [wordAt, hdigit, hlen, htake, Text.pieceText_ofChars]
  rfl

theorem wordAt_mark (hs : EndsWord s) : wordAt (Text.ofChars s) = "" := by
  have hlen := wordLength_ofChars (w := []) (by simp) hs
  rw [List.nil_append] at hlen
  rw [wordAt, hlen, List.length_nil, List.take_zero]
  split
  · rfl
  · rw [Text.pieceText, Text.pieceTextFrom, List.reverse_nil, Text.strayText_nil]

theorem word_name (c : Cursor) (hw : isName w = true) (hs : EndsWord s) (pos : Nat) :
    word (c.on (w ++ s) pos) = some (String.ofList w, c.on s (pos + Text.width w)) := by
  obtain ⟨a, t, rfl, ha, -⟩ := isName_cases hw
  have hskip := skipExtras_self c (fresh_of_isNameStart ha (t ++ s)).1 pos
  rw [← List.cons_append] at hskip
  have hne : (String.ofList (a :: t) == "") = false := by simp
  simp only [word, hskip, Cursor.rest_on, wordAt_name hw hs, hne, String.length_ofList,
    Cursor.advance_on]
  rfl

theorem peekWord_mark (c : Cursor) (hs : EndsWord s) (h : Solid s) (pos : Nat) :
    peekWord (c.on s pos) = some ("", c.on s pos) := by
  rw [peekWord, skipExtras_self c h, Cursor.rest_on, wordAt_mark hs]

section Quoted
open Literal
variable {e : List Char} {quote : Char} {n : Nat}

def KeepsLine (s : List Char) : Prop := ∀ a ∈ s.head?, a ≠ '\n' ∧ a ≠ '\u2028' ∧ a ≠ '\u2029'

/-- A character that stands for itself in a string. -/
def isInert (quote a : Char) : Bool :=
  a != quote && a != '\\' && a != '\r' && a != '\n' && a != '\x00'

/-- The rest of an escape is passed whatever it is. -/
theorem stringLength?_skip (quote : Char) (ds s : List Char) :
    stringLength? quote ds.length (Text.ofChars (ds ++ s)) =
      (stringLength? quote 0 (Text.ofChars s)).map (· + ds.length) := by
  induction ds with
  | nil => simp
  | cons d ds ih =>
    change (if 0 < ds.length + 1 then
      (stringLength? quote ds.length (Text.ofChars (ds ++ s))).map (· + 1) else _) = _
    rw [if_pos (Nat.succ_pos _), ih, Option.map_map]
    rfl

theorem stringLength?_inert {ds : List Char} (h : ∀ d ∈ ds, isInert quote d = true)
    (s : List Char) :
    stringLength? quote 0 (Text.ofChars (ds ++ s)) =
      (stringLength? quote 0 (Text.ofChars s)).map (· + ds.length) := by
  induction ds with
  | nil => simp
  | cons d ds ih =>
    have hd := h d (by simp)
    simp only [isInert, Bool.and_eq_true, bne_iff_ne] at hd
    obtain ⟨⟨⟨⟨hq, hb⟩, hr⟩, hn⟩, hz⟩ := hd
    have hmore := ih fun x hx => h x (by simp [hx])
    change (if 0 < 0 then _ else if (d == quote) then _ else if (d == '\\') then _
      else if (d != '\x00' && !(d == '\r' || d == '\n')) then
        (stringLength? quote 0 (Text.ofChars (ds ++ s))).map (· + 1) else none) = _
    simp only [Nat.lt_irrefl, if_false, beq_eq_false_iff_ne.mpr hq, beq_eq_false_iff_ne.mpr hb,
      beq_eq_false_iff_ne.mpr hr, beq_eq_false_iff_ne.mpr hn, bne_iff_ne.mpr hz, Bool.or_false,
      Bool.not_false, Bool.and_true, Bool.false_eq_true, if_true, hmore, Option.map_map]
    rfl

theorem stringLength?_escape (hq : quote ≠ '\\')
    (he : escapeLength? (Text.ofChars (e ++ s)) = some e.length) :
    stringLength? quote 0 (Text.ofChars ('\\' :: e ++ s)) =
      (stringLength? quote 0 (Text.ofChars s)).map (· + ('\\' :: e).length) := by
  have hne : ('\\' == quote) = false := beq_eq_false_iff_ne.mpr hq.symm
  have hpieces : Text.ofChars ('\\' :: e ++ s) = .char '\\' :: Text.ofChars (e ++ s) := rfl
  rw [hpieces, stringLength?, he]
  simp only [isA, Nat.lt_irrefl, if_false, hne, Bool.false_eq_true, beq_self_eq_true, if_true,
    stringLength?_skip, Option.map_map]
  rfl

theorem takeWhile_hex {digits : List Char} (h : ∀ d ∈ digits, Text.isHex d = true)
    (hs : ∀ a ∈ s.head?, Text.isHex a = false) :
    (Text.ofChars (digits ++ s)).takeWhile (isA Text.isHex) = Text.ofChars digits := by
  have hall : ∀ p ∈ Text.ofChars digits, isA Text.isHex p = true := by
    intro p hp
    obtain ⟨d, hd, rfl⟩ := List.mem_map.mp hp
    exact h d hd
  rw [Text.ofChars_append, List.takeWhile_append_of_pos hall]
  cases s with
  | nil => simp [Text.ofChars]
  | cons a s => simp [Text.ofChars, isA, hs a (by simp)]

theorem unicodeEscape?_braced {digits : List Char} (hne : digits ≠ [])
    (h : ∀ d ∈ digits, Text.isHex d = true) (s : List Char) :
    unicodeEscape? (Text.ofChars ('u' :: '\x7b' :: (digits ++ '\x7d' :: s))) =
      some (digits.length + 3) := by
  have hopen : startsWith (Text.ofChars ('u' :: '\x7b' :: (digits ++ '\x7d' :: s))) "u\x7b" =
      true := by
    rw [startsWith_ofChars]
    rfl
  have hdrop : (Text.ofChars ('u' :: '\x7b' :: (digits ++ '\x7d' :: s))).drop 2 =
      Text.ofChars (digits ++ '\x7d' :: s) := rfl
  have hclose : (Text.ofChars ('u' :: '\x7b' :: (digits ++ '\x7d' :: s))).drop
      (2 + (Text.ofChars digits).length) = Text.ofChars ('\x7d' :: s) := by
    rw [← List.drop_drop, hdrop, Text.ofChars_append]
    exact List.drop_left
  have hend : startsWith (Text.ofChars ('\x7d' :: s)) "\x7d" = true := startsWith_sign rfl s
  have hfull : (Text.ofChars digits).isEmpty = false := by simpa [Text.ofChars] using hne
  rw [unicodeEscape?, if_pos hopen, hdrop, takeWhile_hex h (by simp; decide)]
  dsimp only
  rw [hclose, hend, hfull]
  simp [Text.ofChars]

theorem unicodeEscape?_four {d₁ d₂ d₃ d₄ : Char}
    (h : ∀ d ∈ [d₁, d₂, d₃, d₄], Text.isHex d = true) (s : List Char) :
    unicodeEscape? (Text.ofChars ('u' :: d₁ :: d₂ :: d₃ :: d₄ :: s)) = some 5 := by
  have hopen : startsWith (Text.ofChars ('u' :: d₁ :: d₂ :: d₃ :: d₄ :: s)) "u\x7b" = false := by
    have hne : ('\x7b' == d₁) = false := by
      rw [beq_eq_false_iff_ne]
      rintro rfl
      exact absurd (h '\x7b' (by simp)) (by decide)
    rw [startsWith_ofChars]
    change ('u' == 'u' && ('\x7b' == d₁ && _)) = false
    rw [hne, Bool.false_and, Bool.and_false]
  have hletter : startsWith (Text.ofChars ('u' :: d₁ :: d₂ :: d₃ :: d₄ :: s)) "u" = true :=
    startsWith_sign rfl _
  have hall : (((Text.ofChars ('u' :: d₁ :: d₂ :: d₃ :: d₄ :: s)).drop 1).take 4).all
      (isA Text.isHex) = true := by
    simpa [Text.ofChars, isA] using h
  rw [unicodeEscape?, hopen, hletter, hall]
  rfl

theorem escapeLength?_numeric (h : NumberText n e) (s : List Char) :
    escapeLength? (Text.ofChars (e ++ s)) = some e.length := by
  cases h with
  | braced digits hd =>
    simp only [List.cons_append, List.append_assoc, List.nil_append]
    change unicodeEscape? (Text.ofChars ('u' :: '\x7b' :: (digits ++ '\x7d' :: s))) = _
    rw [unicodeEscape?_braced hd.ne_nil hd.all]
    simp
  | four d₁ d₂ d₃ d₄ hd => exact unicodeEscape?_four hd.all s
  | two d₁ d₂ hd =>
    have hall : ([Text.Piece.char d₁, .char d₂].all (isA Text.isHex)) = true := by
      simpa [isA] using hd.all
    change (if ((2 == 2) && [Text.Piece.char d₁, .char d₂].all (isA Text.isHex)) then some 3
      else none) = _
    rw [hall]
    rfl

def isOctal (a : Char) : Bool := '0' ≤ a && a ≤ '7'

theorem isInert_of_isOctal {d : Char} (h : isOctal d = true) : isInert '\'' d = true := by
  have hne (x : Char) (hx : isOctal x = false) : d ≠ x := by
    rintro rfl
    rw [h] at hx
    cases hx
  simp [isInert, hne '\'' (by decide), hne '\\' (by decide), hne '\r' (by decide),
    hne '\n' (by decide), hne '\x00' (by decide)]

theorem escapeLength?_octal {b : Char} (hb : isOctal b = true) (s : List Char) :
    escapeLength? (Text.ofChars (b :: s)) = some (1 + ((s.take 2).takeWhile isOctal).length) := by
  have hne (x : Char) (hx : isOctal x = false) : (b == x) = false := by
    rw [beq_eq_false_iff_ne]
    rintro rfl
    rw [hb] at hx
    cases hx
  have hrun : (((Text.ofChars s).take 2).takeWhile (isA fun d => '0' ≤ d && d ≤ '7')).length =
      ((s.take 2).takeWhile isOctal).length := by
    rw [Text.ofChars, ← List.map_take, List.takeWhile_map, List.length_map]
    rfl
  change (if (b == '\x00') then none else if (b == 'x') then _ else if (b == 'u') then _
    else if isOctal b then
      some (1 + (((Text.ofChars s).take 2).takeWhile (isA fun d => '0' ≤ d && d ≤ '7')).length)
    else _) = _
  rw [hne '\x00' (by decide), hne 'x' (by decide), hne 'u' (by decide), hb, hrun]
  rfl

/-- Digits after an escape of one digit are passed either way. -/
theorem stringLength?_octal {b : Char} (hb : isOctal b = true) (s : List Char) :
    stringLength? '\'' 0 (Text.ofChars ('\\' :: b :: s)) =
      (stringLength? '\'' 0 (Text.ofChars s)).map (· + 2) := by
  obtain ⟨more, hs⟩ : (s.take 2).takeWhile isOctal <+: s :=
    (List.takeWhile_prefix _).trans (List.take_prefix 2 s)
  have hlen := escapeLength?_octal hb s
  generalize hds : (s.take 2).takeWhile isOctal = ds at hs hlen
  have hinert : ∀ d ∈ ds, isInert '\'' d = true := by
    intro d hd
    rw [← hds] at hd
    exact isInert_of_isOctal (List.all_eq_true.mp List.all_takeWhile d hd)
  subst hs
  rw [Nat.add_comm] at hlen
  have hescape := @stringLength?_escape more (b :: ds) '\'' (by decide) hlen
  have hpast := stringLength?_inert hinert more
  rw [hpast, Option.map_map]
  exact hescape

theorem escapeLength?_single {b : Char} (hz : b ≠ '\x00') (hu : b ≠ 'u') (hx : b ≠ 'x')
    (hd : isOctal b = false) (hs : KeepsLine s) :
    escapeLength? (Text.ofChars ([b] ++ s)) = some 1 := by
  have hbreak : headIs (fun d => d == '\n' || d == '\u2028' || d == '\u2029') (Text.ofChars s) =
      false := by
    rw [headIs_ofChars]
    cases s with
    | nil => rfl
    | cons a s => simpa [and_assoc] using hs a (by simp)
  change (if (b == '\x00') then none else if (b == 'x') then _ else if (b == 'u') then _
    else if isOctal b then _ else if (b == '\r' || b == '?') && headIs
      (fun d => d == '\n' || d == '\u2028' || d == '\u2029') (Text.ofChars s) then some 2
    else some 1) = _
  simp only [beq_eq_false_iff_ne.mpr hz, beq_eq_false_iff_ne.mpr hx, beq_eq_false_iff_ne.mpr hu,
    hd, hbreak, Bool.and_false, Bool.false_eq_true, if_false]

/-- A text that a string takes along, whatever comes after it on the same line. -/
def Quotable (t : List Char) : Prop :=
  ∀ s, KeepsLine s → stringLength? '\'' 0 (Text.ofChars (t ++ s)) =
    (stringLength? '\'' 0 (Text.ofChars s)).map (· + t.length)

theorem quotable_raw (h : isInert '\'' a = true) : Quotable [a] := by
  intro s _
  exact stringLength?_inert (by simpa using h) s

theorem quotable_single {b : Char} (hz : b ≠ '\x00') (hu : b ≠ 'u') (hx : b ≠ 'x') :
    Quotable ['\\', b] := by
  intro s hs
  by_cases ho : isOctal b = true
  · exact stringLength?_octal ho s
  · exact stringLength?_escape (by decide) (escapeLength?_single hz hu hx (by simpa using ho) hs)

theorem quotable_of_escapes (h : Escapes a t) (hz : '\x00' ∉ t) : Quotable t := by
  obtain ⟨hspelled, hescaped, hline⟩ := h
  cases hspelled with
  | raw ha => exact absurd (Option.some.inj hescaped) ha
  | number he => exact fun s _ => stringLength?_escape (by decide) (escapeLength?_numeric he s)
  | @pair _ _ e f breaks _ he hf =>
    cases breaks with
    | zero =>
      intro s _
      change stringLength? '\'' 0 (Text.ofChars (('\\' :: e ++ '\\' :: f) ++ s)) = _
      rw [List.append_assoc, stringLength?_escape (by decide) (escapeLength?_numeric he _),
        stringLength?_escape (by decide) (escapeLength?_numeric hf s), Option.map_map]
      congr 1
      funext k
      simp only [lineBreaks, List.replicate_zero, List.flatten_nil, List.nil_append,
        List.length_append, List.length_cons, Function.comp_apply]
      omega
    | succ breaks => exact absurd (by simp [lineBreaks, List.replicate_succ]) hline
  | @named b hb =>
    obtain ⟨hu, hx, -⟩ := simpleEscape_of_named hb
    refine quotable_single ?_ hu hx
    rintro rfl
    exact hz (by simp)
  | same ha =>
    have hne (x : Char) (hx : x ∈ takenEscapes) : a ≠ x := fun h => ha (h ▸ hx)
    refine quotable_single ?_ (hne 'u' (by decide)) (hne 'x' (by decide))
    rintro rfl
    exact hz (by simp)

theorem keepsLine_append {t : List Char} (hne : t ≠ []) (ht : KeepsLine t) (s : List Char) :
    KeepsLine (t ++ s) := by
  intro a ha
  rw [List.head?_append_of_ne_nil t hne] at ha
  exact ht a ha

theorem stringLength?_quotable {ts : List (List Char)}
    (h : ∀ t ∈ ts, Quotable t ∧ t ≠ [] ∧ KeepsLine t) (s : List Char) :
    KeepsLine (ts.flatten ++ '\'' :: s) ∧
    stringLength? '\'' 0 (Text.ofChars (ts.flatten ++ '\'' :: s)) =
      some (ts.flatten.length + 1) := by
  induction ts with
  | nil => exact ⟨by simp [KeepsLine], rfl⟩
  | cons t ts ih =>
    obtain ⟨hline, hmore⟩ := ih fun u hu => h u (by simp [hu])
    obtain ⟨hquote, hne, hkeep⟩ := h t (by simp)
    rw [List.flatten_cons, List.append_assoc]
    refine ⟨keepsLine_append hne hkeep _, ?_⟩
    rw [hquote _ hline, hmore, Option.map_some, List.length_append]
    congr 1
    omega

theorem stringLiteral_on (c : Cursor) {raw : List Char}
    (h : stringLength? '\'' 0 (Text.ofChars (raw ++ '\'' :: s)) = some (raw.length + 1))
    (pos : Nat) :
    stringLiteral (c.on ('\'' :: (raw ++ '\'' :: s)) pos) =
      some (.string pos (String.ofList raw), c.on s (pos + (Text.width raw + 2))) := by
  have hfresh : Fresh ('\'' :: (raw ++ '\'' :: s)) := ⟨solid_cons (by decide) _, by simp⟩
  have hstart := tokenStart_self c hfresh pos
  have hquote : startsWith (Text.ofChars ('\'' :: (raw ++ '\'' :: s))) "'" = true :=
    startsWith_sign rfl _
  have hdrop : (Text.ofChars ('\'' :: (raw ++ '\'' :: s))).drop 1 =
      Text.ofChars (raw ++ '\'' :: s) := rfl
  have htake : (Text.ofChars (raw ++ '\'' :: s)).take (raw.length + 1 - 1) =
      Text.ofChars raw := by
    simp [Text.ofChars]
  have hpast : (c.on ('\'' :: (raw ++ '\'' :: s)) pos).advance (raw.length + 1 + 1) =
      c.on s (pos + (Text.width raw + 2)) := by
    have hadv := c.advance_on ('\'' :: (raw ++ ['\''])) s pos
    have hsize : '\''.utf8Size = 1 := rfl
    have hwidth : Text.width ('\'' :: (raw ++ ['\''])) = Text.width raw + 2 := by
      simp only [Text.width_cons, Text.width_append, Text.width_nil, hsize]
      omega
    rw [hwidth] at hadv
    simpa using hadv
  simp only [stringLiteral, bind_apply, hstart, Option.bind_some, get_apply, Cursor.rest_on, hquote,
    if_true, pure_apply, hdrop, h, skipPieces, modify_apply, htake, hpast, rawText,
    Text.pieceText_ofChars]

end Quoted

end RouteBook.Source
