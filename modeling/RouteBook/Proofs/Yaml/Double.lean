import Mathlib.Data.List.TakeWhile
import RouteBook.Proofs.Hex
import RouteBook.Proofs.Yaml.Pen
import RouteBook.Proofs.Yaml.Quoted
import RouteBook.Yaml.Printer

/-! A text in double quotes is written with escapes and may be folded anywhere, by a backslash at
the end of a line; it is always read back as it was. -/
namespace RouteBook.Yaml
open Pen (Writes)

section Escapes
variable {c : Cursor} {ch : Char} {t : List Char} {k n : Nat}

theorem upperHex_spec (hlen : (Nat.toDigits 16 n).length ≤ k) :
    (upperHex k n).length = k ∧ (upperHex k n).all Text.isHex = true ∧
      Text.hexNumber (upperHex k n) = n := by
  obtain ⟨hvalue, hall⟩ := Text.hexNumber_toDigits n
  have hzero : Char.toUpper '0' = '0' := rfl
  have hhex : (List.replicate (k - (Nat.toDigits 16 n).length) '0').all Text.isHex = true := by
    rw [List.all_replicate]
    split <;> decide
  refine ⟨?_, ?_, ?_⟩
  · simp [upperHex, Text.hexDigits, hlen]
  · rw [upperHex, Text.hexDigits, List.map_append, List.map_replicate, hzero, List.all_append, hhex,
      hall]
    rfl
  · rw [upperHex, Text.hexDigits, List.map_append, List.map_replicate, hzero, Text.hexNumber_zeros,
      hvalue]

theorem escape_short {e : Char} (he : Scan.letterEscape? e = some ch)
    (h : c.rest = '\\' :: e :: t) : Scan.escape c.next = .ok ([ch.toNat], c.skip 2) := by
  have hrest : c.next.rest = e :: t := by
    rw [Cursor.rest_next, h]
    rfl
  simp [Scan.escape, Cursor.atEnd_cons hrest, Cursor.peek_cons hrest, he, Cursor.skip]

theorem toNat_lt (ch : Char) : ch.toNat < 0x110000 := by
  rcases ch.valid with h | ⟨-, h⟩ <;> (change ch.toNat < _ at h; omega)

theorem escape_number {x : Char} (hx : Scan.escapeWidth? x = some k)
    (hn : (Nat.toDigits 16 ch.toNat).length ≤ k)
    (h : c.rest = '\\' :: x :: (upperHex k ch.toNat ++ t)) :
    Scan.escape c.next = .ok ([ch.toNat], c.skip (k + 2)) := by
  obtain ⟨hlen, hall, hvalue⟩ := upperHex_spec hn
  have hrest : c.next.rest = x :: (upperHex k ch.toNat ++ t) := by
    rw [Cursor.rest_next, h]
    rfl
  have hletter : Scan.letterEscape? x = none := by
    unfold Scan.escapeWidth? at hx
    split at hx <;> simp_all [Scan.letterEscape?]
  have htake : ((upperHex k ch.toNat ++ t).take k) = upperHex k ch.toNat := by
    rw [List.take_append_of_le_length (by omega), List.take_of_length_le (by omega)]
  have hpoint : Literal.codePoint ch.toNat = .ok ch.toNat := if_pos (toNat_lt ch)
  simp [Scan.escape, Cursor.atEnd_cons hrest, Cursor.peek_cons hrest, hletter, hx, hrest, htake,
    hlen, hvalue, hpoint, Cursor.skip]
  exact List.all_eq_true.mp hall

theorem length_toDigits_two (h : n ≤ 0xFF) : (Nat.toDigits 16 n).length ≤ 2 :=
  (Nat.length_toDigits_le_iff (by omega) (by omega)).mpr (by omega)

theorem length_toDigits_four (h : n ≤ 0xFFFF) : (Nat.toDigits 16 n).length ≤ 4 :=
  (Nat.length_toDigits_le_iff (by omega) (by omega)).mpr (by omega)

theorem length_toDigits_eight (ch : Char) : (Nat.toDigits 16 ch.toNat).length ≤ 8 := by
  have hlt := toNat_lt ch
  exact (Nat.length_toDigits_le_iff (by omega) (by omega)).mpr (by omega)

theorem letterEscape?_of_short {e : Char} (h : shortEscape? ch = some e) :
    Scan.letterEscape? e = some ch := by
  unfold shortEscape? at h
  split at h <;> cases h <;> rfl

/-- An escape is read back as the character it stands for. -/
theorem escape_escaped (h : c.rest = escaped ch ++ t) :
    Scan.escape c.next = .ok ([ch.toNat], c.skip (escaped ch).length) := by
  cases hs : shortEscape? ch with
  | some e =>
    simp only [escaped, hs] at h ⊢
    exact escape_short (letterEscape?_of_short hs) h
  | none =>
    simp only [escaped, hs] at h ⊢
    split_ifs at h ⊢ with h2 h4
    · rw [List.length_cons, List.length_cons, (upperHex_spec (length_toDigits_two h2)).1]
      exact escape_number rfl (length_toDigits_two h2) h
    · rw [List.length_cons, List.length_cons, (upperHex_spec (length_toDigits_four h4)).1]
      exact escape_number rfl (length_toDigits_four h4) h
    · rw [List.length_cons, List.length_cons, (upperHex_spec (length_toDigits_eight ch)).1]
      exact escape_number rfl (length_toDigits_eight ch) h

theorem ascii_of_hex (h : Text.isHex ch = true) : 0x20 ≤ ch.toNat ∧ ch.toNat ≤ 0x7E := by
  simp only [Text.isHex, Text.hexValue?] at h
  split_ifs at h
  · omega
  · omega
  · omega
  · simp at h

theorem ascii_of_escaped {x : Char} (h : x ∈ escaped ch) : 0x20 ≤ x.toNat ∧ x.toNat ≤ 0x7E := by
  have hhex : ∀ {k}, (Nat.toDigits 16 ch.toNat).length ≤ k → x ∈ upperHex k ch.toNat →
      0x20 ≤ x.toNat ∧ x.toNat ≤ 0x7E := fun hn hx =>
    ascii_of_hex (List.all_eq_true.mp (upperHex_spec hn).2.1 x hx)
  cases hs : shortEscape? ch with
  | some e =>
    have he : 0x20 ≤ e.toNat ∧ e.toNat ≤ 0x7E := by
      unfold shortEscape? at hs
      split at hs <;> cases hs <;> decide
    simp only [escaped, hs, List.mem_cons, List.not_mem_nil, or_false] at h
    rcases h with rfl | rfl
    · decide
    · exact he
  | none =>
    simp only [escaped, hs] at h
    split_ifs at h with h2 h4
    all_goals
      simp only [List.mem_cons] at h
      rcases h with rfl | rfl | h
      · decide
      · decide
    · exact hhex (length_toDigits_two h2) h
    · exact hhex (length_toDigits_four h4) h
    · exact hhex (length_toDigits_eight ch) h

end Escapes

inductive DoubleText (split : Bool) (inner : Nat) : List Char → List Char → Prop
  | nil : DoubleText split inner [] []
  | raw {c : Char} {s t : List Char} : isRaw c = true → c ≠ ' ' → DoubleText split inner s t →
      DoubleText split inner (c :: s) (c :: t)
  | blanks (m : Nat) {s t : List Char} : firstIs (· == ' ') t = false →
      DoubleText split inner s t →
      DoubleText split inner (List.replicate (m + 1) ' ' ++ s) (List.replicate (m + 1) ' ' ++ t)
  | escape {c : Char} {s t : List Char} : isRaw c = false → DoubleText split inner s t →
      DoubleText split inner (c :: s) (escaped c ++ t)
  | fold {s t : List Char} : split = true → firstIs (· == ' ') t = false →
      DoubleText split inner s t →
      DoubleText split inner s ('\\' :: '\n' :: (List.replicate inner ' ' ++ t))
  | foldBlank {s t : List Char} : split = true → DoubleText split inner s t →
      DoubleText split inner (' ' :: s)
        ('\\' :: '\n' :: (List.replicate inner ' ' ++ '\\' :: ' ' :: t))

section Writing
variable {split : Bool} {inner : Nat} {p : Pen} {c : Char} {s t run : List Char}

theorem escaped_cons (c : Char) : ∃ es, escaped c = '\\' :: es := by
  simp only [escaped]
  split
  · exact ⟨_, rfl⟩
  · split_ifs <;> exact ⟨_, rfl⟩

theorem DoubleText.blank (h : DoubleText split inner s t) :
    DoubleText split inner (' ' :: s) (' ' :: t) := by
  cases h with
  | blanks m ht h => exact .blanks (m + 1) ht h
  | nil => exact .blanks 0 rfl .nil
  | raw hc hne h => exact .blanks 0 (by simpa [firstIs] using hne) (.raw hc hne h)
  | @escape c _ _ hc h =>
    obtain ⟨es, he⟩ := escaped_cons c
    exact .blanks 0 (by simp [he, firstIs]) (.escape hc h)
  | fold hs ht h => exact .blanks 0 rfl (.fold hs ht h)
  | foldBlank hs h => exact .blanks 0 rfl (.foldBlank hs h)

theorem DoubleText.plain (hc : isRaw c = true) (h : DoubleText split inner s t) :
    DoubleText split inner (c :: s) (c :: t) := by
  by_cases hblank : c = ' '
  · subst hblank
    exact h.blank
  · exact .raw hc hblank h

theorem DoubleText.first (h : DoubleText split inner s t) (hs : firstIs (· == ' ') s = false) :
    firstIs (· == ' ') t = false := by
  cases h with
  | nil => rfl
  | raw _ hne _ => simpa [firstIs] using hne
  | blanks m _ _ => simp [List.replicate_succ, firstIs] at hs
  | @escape c _ _ _ _ =>
    obtain ⟨es, he⟩ := escaped_cons c
    simp [he, firstIs]
  | fold _ _ _ => rfl
  | foldBlank _ _ => rfl

theorem foldDouble_blank (inner : Nat) (hp : p.indented = false) (run : List Char) :
    Writes p (foldDouble inner p run (some ' '))
        (run.reverse ++ '\\' :: '\n' :: (List.replicate inner ' ' ++ ['\\'])) ∧
      (foldDouble inner p run (some ' ')).indented = false ∧
      (foldDouble inner p run (some ' ')).column = inner + 1 := by
  have hindent := Pen.indent_break (p := p.write (run.reverse ++ ['\\'])) (n := inner) (.inl hp)
  simp only [foldDouble, hindent, if_true]
  simp [Writes, Pen.write, Pen.solid]

theorem foldDouble_other (inner : Nat) (hp : p.indented = false) (run : List Char)
    {next : Option Char} (hn : next ≠ some ' ') :
    Writes p (foldDouble inner p run next)
        (run.reverse ++ '\\' :: '\n' :: List.replicate inner ' ') ∧
      (foldDouble inner p run next).indented = false := by
  have hindent := Pen.indent_break (p := p.write (run.reverse ++ ['\\'])) (n := inner) (.inl hp)
  simp only [foldDouble, hindent, if_neg hn]
  simp [Writes, Pen.write, Pen.solid]

/-- The rest of a text is written as it should be, from any state of the writer; and right after a
fold its first blank is written as it is, so that the backslash before it stands for it. -/
structure Continues (split : Bool) (inner : Nat) (s : List Char) : Prop where
  any (p : Pen) (run : List Char) (index : Nat) : p.indented = false → ∃ t,
    DoubleText split inner s t ∧
    Writes p (writeDouble split inner p run index s) (run.reverse ++ t)
  folded (p : Pen) (index : Nat) : p.indented = false → p.column ≤ width →
    ∀ s', s = ' ' :: s' → ∃ t, DoubleText split inner s' t ∧
    Writes p (writeDouble split inner p [] index s) (' ' :: t)

theorem Continues.raw (h : Continues split inner s) (hc : isRaw c = true) (p : Pen)
    (run : List Char) (index : Nat) (hp : p.indented = false) :
    ∃ t, DoubleText split inner (c :: s) t ∧
      Writes p (writeDouble split inner p run index (c :: s)) (run.reverse ++ t) := by
  simp only [writeDouble, hc, if_true]
  split_ifs with hblank hstart
  · simp only [Bool.and_eq_true, beq_iff_eq] at hblank
    obtain ⟨⟨rfl, hinner⟩, -⟩ := hblank
    obtain ⟨hw, hflag, -⟩ := foldDouble_blank inner hp run
    obtain ⟨t, htext, hmore⟩ := h.any _ [' '] (index + 1) hflag
    refine ⟨_, .foldBlank hinner.2 htext, ?_⟩
    simpa using hw.trans hmore
  · simp only [Bool.and_eq_true, List.isEmpty_iff, beq_iff_eq] at hstart hblank
    obtain ⟨⟨rfl, hinner⟩, hwidth⟩ := hstart
    have hne : c ≠ ' ' := by
      rintro rfl
      exact hblank ⟨⟨rfl, hinner⟩, by simpa using hwidth⟩
    have hnext : some c ≠ some ' ' := by simpa using hne
    obtain ⟨hw, hflag⟩ := foldDouble_other inner hp [] hnext
    obtain ⟨t, htext, hmore⟩ := h.any _ [c] (index + 1) hflag
    refine ⟨_, .fold hinner.2 ?_ (.raw hc hne htext), ?_⟩
    · simpa [firstIs] using hne
    · simpa using hw.trans hmore
  · obtain ⟨t, htext, hmore⟩ := h.any p (c :: run) (index + 1) hp
    exact ⟨_, htext.plain hc, by simpa using hmore⟩

theorem Continues.escape (hin : inner < width) (h : Continues split inner s)
    (hc : isRaw c = false) (p : Pen) (run : List Char) (index : Nat) (hp : p.indented = false) :
    ∃ t, DoubleText split inner (c :: s) t ∧
      Writes p (writeDouble split inner p run index (c :: s)) (run.reverse ++ t) := by
  have hwritten : Writes p ((p.write run.reverse).write (escaped c)) (run.reverse ++ escaped c) :=
    (Pen.writes_write p _).trans (Pen.writes_write _ _)
  have hp' : ((p.write run.reverse).write (escaped c)).indented = false := hp
  simp only [writeDouble, hc, Bool.false_eq_true, if_false]
  split_ifs with hfold
  · simp only [Bool.and_eq_true] at hfold
    by_cases hnext : s.head? = some ' '
    · obtain ⟨s', rfl⟩ := List.head?_eq_some_iff.mp hnext
      obtain ⟨hw, hflag, hcolumn⟩ := foldDouble_blank inner hp' []
      obtain ⟨t, htext, hmore⟩ := h.folded _ (index + 1) hflag (by omega) s' rfl
      refine ⟨_, .escape hc (.foldBlank hfold.1.2 htext), ?_⟩
      simpa using hwritten.trans (hw.trans hmore)
    · obtain ⟨hw, hflag⟩ := foldDouble_other inner hp' [] hnext
      obtain ⟨t, htext, hmore⟩ := h.any _ [] (index + 1) hflag
      have hfirst : firstIs (· == ' ') s = false := by
        cases s with
        | nil => rfl
        | cons d s => simpa [firstIs] using hnext
      refine ⟨_, .escape hc (.fold hfold.1.2 (htext.first hfirst) htext), ?_⟩
      simpa using hwritten.trans (hw.trans hmore)
  · obtain ⟨t, htext, hmore⟩ := h.any _ [] (index + 1) hp'
    exact ⟨_, .escape hc htext, by simpa using hwritten.trans hmore⟩

theorem continues (split : Bool) (hin : inner < width) (s : List Char) :
    Continues split inner s := by
  induction s with
  | nil =>
    refine ⟨fun p run index _ => ⟨[], .nil, ?_⟩, fun p index _ _ s' hs => by cases hs⟩
    rw [List.append_nil]
    exact Pen.writes_write p run.reverse
  | cons c s ih =>
    refine ⟨fun p run index hp => ?_, fun p index hp hcolumn s' hs => ?_⟩
    · cases hc : isRaw c with
      | true => exact ih.raw hc p run index hp
      | false => exact ih.escape hin hc p run index hp
    · -- a blank on the fresh line after a fold is not folded once more
      obtain ⟨rfl, rfl⟩ := List.cons.inj hs
      obtain ⟨t, htext, hmore⟩ := ih.any p [' '] (index + 1) hp
      have hraw : isRaw ' ' = true := by decide
      have hfits : ¬ width < p.column := by omega
      refine ⟨t, htext, ?_⟩
      simpa [writeDouble, hraw, hfits] using hmore

theorem writes_double (split : Bool) (hin : inner < width) (p : Pen) (s : List Char) :
    ∃ t, Writes p (double split inner p s) (p.lead ++ '"' :: (t ++ ['"'])) ∧
      DoubleText split inner s t ∧ (double split inner p s).Solid := by
  obtain ⟨t, htext, hw⟩ := (continues split hin s).any (p.mark ['"'] true false false) [] 0
    (Pen.solid_mark _ _ _).indented
  refine ⟨t, ?_, htext, Pen.solid_mark _ _ _⟩
  have hopen := (Pen.writes_mark p ['"'] false false).trans hw
  have hclose := hopen.trans (Pen.writes_mark_close _ ['"'] false false)
  simpa [double] using hclose

theorem legible_of_raw (h : isRaw c = true) (split : Bool) : Legible split c := by
  have hspecial : isSpecial c = false := by
    simp only [isRaw, Bool.and_eq_true, Bool.not_eq_true', Bool.or_eq_false_iff,
      Bool.or_eq_true, decide_eq_true_eq, beq_eq_false_iff_ne] at h
    simp [isSpecial]
    omega
  refine legible_of_not_special hspecial fun _ => ?_
  have hne : ∀ d, isRaw d = false → c ≠ d := by
    rintro d hd rfl
    simp [hd] at h
  simp [isBreak, hne '\n' (by decide), hne '\x85' (by decide), hne '\u2028' (by decide),
    hne '\u2029' (by decide)]

theorem DoubleText.legible (h : DoubleText split inner s t) : ∀ c ∈ t, Legible split c := by
  have hblanks : ∀ m, ∀ c ∈ List.replicate m ' ', Legible split c := by
    intro m c hc
    rw [List.eq_of_mem_replicate hc]
    exact legible_blank split
  have hback : Legible split '\\' := legible_of_ascii (by decide) (by decide) split
  induction h with
  | nil => simp
  | raw hc _ _ ih => exact List.forall_mem_cons.mpr ⟨legible_of_raw hc split, ih⟩
  | blanks m _ _ ih => exact List.forall_mem_append.mpr ⟨hblanks _, ih⟩
  | escape _ _ ih =>
    refine List.forall_mem_append.mpr ⟨fun x hx => ?_, ih⟩
    have hascii := ascii_of_escaped hx
    exact legible_of_ascii hascii.1 hascii.2 split
  | fold hsplit _ _ ih =>
    simp only [List.forall_mem_cons, List.forall_mem_append]
    exact ⟨hback, legible_lineFeed hsplit, hblanks _, ih⟩
  | foldBlank hsplit _ ih =>
    simp only [List.forall_mem_cons, List.forall_mem_append]
    exact ⟨hback, legible_lineFeed hsplit, hblanks _, hback, legible_blank split, ih⟩

def doublePiece (c : Char) : List Char := if isRaw c then [c] else escaped c

theorem DoubleText.eq_of_line (h : DoubleText false inner s t) : t = s.flatMap doublePiece := by
  induction h with
  | nil => rfl
  | raw hc _ _ ih => simp [doublePiece, hc, ih]
  | blanks m _ _ ih =>
    have hraw : isRaw ' ' = true := by decide
    simp [List.flatMap_append, ih, List.flatMap_replicate, doublePiece, hraw]
  | escape hc _ ih => simp [doublePiece, hc, ih]
  | fold hsplit _ _ _ => cases hsplit
  | foldBlank hsplit _ _ => cases hsplit

end Writing

section Reading
open Scan (Quotes isGap codesOf)
variable {split : Bool} {inner k : Nat} {c : Cursor} {ch : Char} {s t tail : List Char}

theorem gap_of_raw (h : isRaw ch = true) (hne : ch ≠ ' ') : isGap ch = false := by
  have hraw : ∀ d, isRaw d = false → ch ≠ d := by
    rintro d hd rfl
    simp [hd] at h
  simp [isGap, isNewline, isBreak, hne, hraw '\t' (by decide), hraw '\r' (by decide),
    hraw '\n' (by decide), hraw '\x85' (by decide), hraw '\u2028' (by decide),
    hraw '\u2029' (by decide)]

theorem DoubleText.opens (h : DoubleText split inner s t) (ht : firstIs (· == ' ') t = false) :
    firstIs isGap (t ++ '"' :: tail) = false := by
  cases h with
  | nil => rfl
  | raw hc hne _ => exact gap_of_raw hc hne
  | blanks m _ _ => simp [List.replicate_succ, firstIs] at ht
  | @escape c _ _ _ _ =>
    obtain ⟨es, he⟩ := escaped_cons c
    rw [he]
    rfl
  | fold _ _ _ => rfl
  | foldBlank _ _ => rfl

/-- A backslash at the end of a line stands for nothing, with the blanks of the next line. -/
theorem escape_fold (h : c.rest = '\\' :: '\n' :: (List.replicate (k + 1) ' ' ++ t))
    (ht : firstIs isGap t = false) : Scan.escape c.next = .ok ([], c.skip (k + 3)) := by
  have hrest : c.next.rest = '\n' :: (List.replicate (k + 1) ' ' ++ t) := by
    rw [Cursor.rest_next, h]
    rfl
  have hnext : c.next.next.rest = [] ++ (List.replicate (k + 1) ' ' ++ t) := by
    rw [Cursor.rest_next, hrest]
    rfl
  have hbreaks := Scan.quotedBreaks_run hnext (by simp) ht
    (Nat.succ_pos c.next.next.rest.length)
  simp only [Scan.escape, Cursor.atEnd_cons hrest, Cursor.peek_cons hrest,
    Cursor.lineBreak_lineFeed hrest, hbreaks]
  simp [Scan.letterEscape?, Scan.escapeWidth?, isNewline, isBreak, codesOf, Cursor.skip_succ]

theorem quotes_double (h : DoubleText split inner s t) (hin : 0 < inner)
    (hr : c.rest = t ++ '"' :: tail) : Quotes true c (codesOf s) (c.skip (t.length + 1)) := by
  obtain ⟨k, rfl⟩ : ∃ k, inner = k + 1 := ⟨inner - 1, by omega⟩
  induction h generalizing c with
  | nil => exact .close_double hr
  | @raw ch s t hc hne _ ih =>
    have hquote : ch ≠ '"' ∧ ch ≠ '\\' := by
      constructor <;> rintro rfl <;> exact absurd hc (by decide)
    have hnext : c.next.rest = t ++ '"' :: tail := by
      rw [Cursor.rest_next, hr]
      rfl
    exact .char hr (gap_of_raw hc hne) (.inr rfl) (.inl hquote) (ih hnext)
  | @blanks m s t ht htext ih =>
    rw [List.append_assoc] at hr
    obtain ⟨x, xs, hx⟩ : ∃ x xs, t ++ '"' :: tail = x :: xs :=
      List.exists_cons_of_ne_nil (by simp)
    have hopen : firstIs isGap (t ++ '"' :: tail) = false := htext.opens ht
    have hrest := Cursor.rest_skip_append hr
    rw [hx] at hr hopen
    have hgap := Scan.quotedSpaces_blanks hr hopen
    rw [List.length_replicate] at hrest
    rw [codesOf, List.map_append, List.length_append, List.length_replicate, Nat.add_assoc,
      Cursor.skip_add]
    exact .spaces hr (by decide) hgap (ih hrest)
  | @escape ch s t _ _ ih =>
    rw [List.append_assoc] at hr
    have hrest := Cursor.rest_skip_append hr
    have hescape := escape_escaped hr
    obtain ⟨es, he⟩ := escaped_cons ch
    rw [he] at hr hrest hescape
    rw [he, List.length_append, Nat.add_assoc, Cursor.skip_add]
    exact .escape hr hescape (ih hrest)
  | @fold s t _ ht htext ih =>
    have hline : c.rest = '\\' :: '\n' :: (List.replicate (k + 1) ' ' ++ (t ++ '"' :: tail)) := by
      simpa using hr
    have hrest : (c.skip (k + 3)).rest = t ++ '"' :: tail := by
      simp [Cursor.rest_skip, hline]
    have hlen : ('\\' :: '\n' :: (List.replicate (k + 1) ' ' ++ t)).length + 1 =
        k + 3 + (t.length + 1) := by
      simp only [List.length_cons, List.length_append, List.length_replicate]
      omega
    rw [hlen, Cursor.skip_add]
    exact .escape hline (escape_fold hline (htext.opens ht)) (ih hrest)
  | @foldBlank s t _ _ ih =>
    have hline : c.rest = '\\' :: '\n' :: (List.replicate (k + 1) ' ' ++
        '\\' :: ' ' :: (t ++ '"' :: tail)) := by
      simpa using hr
    have hblank : (c.skip (k + 3)).rest = '\\' :: ' ' :: (t ++ '"' :: tail) := by
      simp [Cursor.rest_skip, hline]
    have hrest : ((c.skip (k + 3)).skip 2).rest = t ++ '"' :: tail := by
      rw [Cursor.rest_skip, hblank]
      rfl
    have hlen : ('\\' :: '\n' :: (List.replicate (k + 1) ' ' ++ '\\' :: ' ' :: t)).length + 1 =
        k + 3 + (2 + (t.length + 1)) := by
      simp only [List.length_cons, List.length_append, List.length_replicate]
      omega
    rw [hlen, Cursor.skip_add, Cursor.skip_add]
    exact .escape hline (escape_fold hline rfl)
      (.escape hblank (escape_short rfl hblank) (ih hrest))

end Reading

end RouteBook.Yaml
