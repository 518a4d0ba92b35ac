import RouteBook.Proofs.Yaml.Style

/-! Reading a quoted text piece by piece. -/
namespace RouteBook.Yaml.Scan
variable {double : Bool} {c d : Cursor} {ch : Char} {codes : List Nat} {t tail bs : List Char}
  {k m fuel : Nat}

def Quotes (double : Bool) (c : Cursor) (codes : List Nat) (d : Cursor) : Prop :=
  ∀ fuel, c.rest.length < fuel → quotedBody double fuel c = .ok (codes, d)

def isGap (ch : Char) : Bool := ch == ' ' || ch == '\t' || isNewline ch

theorem gap_of_letter (h : isLetter ch = true) : isGap ch = false := by
  have hs := space_of_letter h
  have hn := newline_of_letter h
  simp only [isSpaceOrBreak, Bool.or_eq_false_iff] at hs
  simp [isGap, hs, hn]

theorem Quotes.char (h : c.rest = ch :: t) (hg : isGap ch = false) (hs : ch ≠ '\'' ∨ double = true)
    (hd : ch ≠ '"' ∧ ch ≠ '\\' ∨ double = false) (hq : Quotes double c.next codes d) :
    Quotes double c (ch.toNat :: codes) d := by
  intro fuel hf
  obtain ⟨fuel, rfl⟩ : ∃ f, fuel = f + 1 := ⟨fuel - 1, by omega⟩
  have hmore := hq fuel (by simp [Cursor.rest_next, h] at hf ⊢; omega)
  simp only [isGap, Bool.or_eq_false_iff] at hg
  have hquote : (ch == '"' && double) = false ∧ (ch == '\'' && !double) = false ∧
      (ch == '\\' && double) = false := by
    cases double <;> simp_all
  simp [quotedBody, Cursor.peek_cons h, Cursor.atEnd_cons h, hquote, hg, hmore]

theorem Quotes.mark (h : c.rest = '\'' :: '\'' :: t) (hq : Quotes false (c.skip 2) codes d) :
    Quotes false c ('\''.toNat :: codes) d := by
  intro fuel hf
  obtain ⟨fuel, rfl⟩ : ∃ f, fuel = f + 1 := ⟨fuel - 1, by omega⟩
  have hmore := hq fuel (by simp [Cursor.rest_skip, h] at hf ⊢; omega)
  have hnext : c.peek 1 = '\'' := by simp [Cursor.peek, h]
  simp [quotedBody, Cursor.peek_cons h, Cursor.atEnd_cons h, hnext, hmore]

theorem Quotes.close_single (h : c.rest = '\'' :: tail) (ht : firstIs (· == '\'') tail = false) :
    Quotes false c [] c.next := by
  intro fuel hf
  obtain ⟨fuel, rfl⟩ : ∃ f, fuel = f + 1 := ⟨fuel - 1, by omega⟩
  have hnext : (c.peek 1 == '\'') = false := by
    cases tail with
    | nil => simp [Cursor.peek, h]
    | cons x tail => simpa [Cursor.peek, h, firstIs] using ht
  simp [quotedBody, Cursor.peek_cons h, Cursor.atEnd_cons h, hnext]
  rfl

theorem Quotes.close_double (h : c.rest = '"' :: tail) : Quotes true c [] c.next := by
  intro fuel hf
  obtain ⟨fuel, rfl⟩ : ∃ f, fuel = f + 1 := ⟨fuel - 1, by omega⟩
  simp [quotedBody, Cursor.peek_cons h, Cursor.atEnd_cons h]
  rfl

theorem Quotes.spaces {n : Nat} {more : List Nat} (h : c.rest = ch :: t) (hg : isGap ch = true)
    (hs : quotedSpaces c = .ok (codes, c.skip (n + 1)))
    (hq : Quotes double (c.skip (n + 1)) more d) : Quotes double c (codes ++ more) d := by
  intro fuel hf
  obtain ⟨fuel, rfl⟩ : ∃ f, fuel = f + 1 := ⟨fuel - 1, by omega⟩
  have hmore := hq fuel (by simp [Cursor.rest_skip, h] at hf ⊢; omega)
  have hne : ch ≠ '"' ∧ ch ≠ '\'' ∧ ch ≠ '\\' := by
    refine ⟨?_, ?_, ?_⟩ <;> rintro rfl <;> exact absurd hg (by decide)
  simp only [isGap, Bool.or_eq_true, beq_iff_eq] at hg
  simp only [quotedBody, Cursor.peek_cons h, Cursor.atEnd_cons h, beq_eq_false_iff_ne.mpr hne.1,
    beq_eq_false_iff_ne.mpr hne.2.1, beq_eq_false_iff_ne.mpr hne.2.2, Bool.false_and,
    Bool.false_eq_true, if_false, Bool.or_eq_true, beq_iff_eq, hg, if_true, hs]
  change (do let r ← quotedBody double fuel (c.skip (n + 1)); pure (codes ++ r.1, r.2)) = _
  rw [hmore]
  rfl

theorem Quotes.escape {n : Nat} {more : List Nat} (h : c.rest = '\\' :: t)
    (hs : escape c.next = .ok (codes, c.skip (n + 1)))
    (hq : Quotes true (c.skip (n + 1)) more d) : Quotes true c (codes ++ more) d := by
  intro fuel hf
  obtain ⟨fuel, rfl⟩ : ∃ f, fuel = f + 1 := ⟨fuel - 1, by omega⟩
  have hmore := hq fuel (by simp [Cursor.rest_skip, h] at hf ⊢; omega)
  simp only [quotedBody, Cursor.peek_cons h, Cursor.atEnd_cons h, Bool.and_true, beq_self_eq_true,
    Bool.and_false, Bool.not_true, Bool.false_eq_true, if_false, if_true, hs]
  change (do let r ← quotedBody true fuel (c.skip (n + 1)); pure (codes ++ r.1, r.2)) = _
  rw [hmore]
  rfl

theorem newline_of_break (h : isBreak ch = true) : isNewline ch = true := by
  simp [isNewline, h]

theorem gap_of_break (h : isBreak ch = true) : isGap ch = true := by
  simp [isGap, newline_of_break h]

theorem firstIs_blank (h : firstIs isGap t = false) :
    firstIs (fun ch => ch == ' ' || ch == '\t') t = false := by
  cases t with
  | nil => rfl
  | cons ch t =>
    simp only [firstIs, isGap, Bool.or_eq_false_iff] at h ⊢
    exact h.1

theorem blank_of_break (h : isBreak ch = true) : (ch == ' ' || ch == '\t') = false := by
  have hne : ∀ d, isBreak d = false → ch ≠ d := by
    rintro d hd rfl
    simp [hd] at h
  simp [hne ' ' (by decide), hne '\t' (by decide)]

def readBreak (ch : Char) : Char := if ch = '\x85' then '\n' else ch

theorem lineBreak_break (h : c.rest = ch :: t) (hb : isBreak ch = true) :
    c.lineBreak = ([readBreak ch], c.next) := by
  simp only [isBreak, Bool.or_eq_true, beq_iff_eq] at hb
  rcases hb with ((rfl | rfl) | rfl) | rfl <;>
    (unfold Cursor.lineBreak; rw [h]; rfl)

theorem quotedBreaks_run (h : c.rest = bs ++ (List.replicate (k + 1) ' ' ++ t))
    (hb : ∀ b ∈ bs, isBreak b = true) (ht : firstIs isGap t = false) (hf : bs.length < fuel) :
    quotedBreaks fuel c = .ok (bs.map readBreak, c.skip (bs.length + (k + 1))) := by
  induction bs generalizing c fuel with
  | nil =>
    obtain ⟨fuel, rfl⟩ : ∃ f, fuel = f + 1 := ⟨fuel - 1, by omega⟩
    have hmark : c.atMarker = false :=
      Cursor.atMarker_of_rest (isMarker_of_first (by simp [h, List.replicate_succ, firstIs]))
    have hskip := Cursor.skipWhile_run (p := fun ch => ch == ' ' || ch == '\t')
      (w := List.replicate (k + 1) ' ') h (by simp) (firstIs_blank ht)
    have hrest := Cursor.rest_skip_append (w := List.replicate (k + 1) ' ') h
    rw [List.length_replicate] at hskip hrest
    have hstop : (!(c.skip (k + 1)).atEnd && isNewline (c.skip (k + 1)).peek) = false := by
      cases t with
      | nil => simp [Cursor.atEnd, hrest]
      | cons ch t =>
        simp only [firstIs, isGap, Bool.or_eq_false_iff] at ht
        simp [Cursor.peek_cons hrest, ht]
    simp only [quotedBreaks, hmark, Bool.false_eq_true, if_false, hskip, hstop, List.length_nil,
      List.map_nil, Nat.zero_add]
  | cons b bs ih =>
    obtain ⟨fuel, rfl⟩ : ∃ f, fuel = f + 1 := ⟨fuel - 1, by omega⟩
    have hbreak := hb b (by simp)
    have hfirst : firstIs (fun ch => ch == '-' || ch == '.') c.rest = false := by
      have hne : ∀ d, isBreak d = false → b ≠ d := by
        rintro d hd rfl
        simp [hd] at hbreak
      simp [h, firstIs, hne '-' (by decide), hne '.' (by decide)]
    have hskip : c.skipWhile (fun ch => ch == ' ' || ch == '\t') = c :=
      Cursor.skipWhile_none (by simpa [h, firstIs] using blank_of_break hbreak)
    have hnext : c.next.rest = bs ++ (List.replicate (k + 1) ' ' ++ t) := by
      rw [Cursor.rest_next, h]
      rfl
    have hmore := ih hnext (fun x hx => hb x (by simp [hx])) (Nat.lt_of_succ_lt_succ hf)
    simp only [quotedBreaks, Cursor.atMarker_of_rest (isMarker_of_first hfirst),
      Bool.false_eq_true, if_false, hskip, Cursor.atEnd_cons h, Cursor.peek_cons h,
      newline_of_break hbreak, Bool.not_false, Bool.and_self, if_true, lineBreak_break h hbreak,
      hmore]
    rw [List.length_cons, Nat.succ_add, Cursor.skip_succ]
    rfl

theorem quotedSpaces_blanks (h : c.rest = List.replicate (m + 1) ' ' ++ ch :: t)
    (hch : isGap ch = false) :
    quotedSpaces c = .ok (codesOf (List.replicate (m + 1) ' '), c.skip (m + 1)) := by
  have hspan := Cursor.span_run (p := fun ch => ch == ' ' || ch == '\t') h (by simp)
    (firstIs_blank (t := ch :: t) hch)
  have hrest := Cursor.rest_skip_append h
  rw [List.length_replicate] at hspan hrest
  simp only [isGap, Bool.or_eq_false_iff] at hch
  unfold quotedSpaces
  rw [hspan]
  simp [Cursor.peek_cons hrest, Cursor.atEnd_cons hrest, hch]

def readBreaks (b : Char) (bs : List Char) : List Char :=
  (if readBreak b ≠ '\n' then [b] else if bs.isEmpty then [' '] else []) ++ bs.map readBreak

theorem quotedSpaces_breaks {b : Char} (h : c.rest = b :: (bs ++ (List.replicate (k + 1) ' ' ++ t)))
    (hb : ∀ x ∈ b :: bs, isBreak x = true) (ht : firstIs isGap t = false) :
    quotedSpaces c = .ok (codesOf (readBreaks b bs), c.skip (bs.length + (k + 1) + 1)) := by
  have hbreak := hb b (by simp)
  have hspan : c.span (fun ch => ch == ' ' || ch == '\t') = ([], c) :=
    Cursor.span_run (w := []) h rfl (by simpa [firstIs] using blank_of_break hbreak)
  have hnext : c.next.rest = bs ++ (List.replicate (k + 1) ' ' ++ t) := by
    rw [Cursor.rest_next, h]
    rfl
  have hfuel : bs.length < c.next.rest.length.succ := by
    rw [hnext, List.length_append]
    omega
  have hmore := quotedBreaks_run hnext (fun x hx => hb x (by simp [hx])) ht hfuel
  have hlead : (if [readBreak b] != ['\n'] then [readBreak b]
      else if (bs.map readBreak).isEmpty then [' '] else []) ++ bs.map readBreak =
      readBreaks b bs := by
    unfold readBreaks readBreak
    by_cases hnel : b = '\x85' <;> simp [hnel]
  unfold quotedSpaces
  rw [hspan]
  simp only [Cursor.peek_cons h, Cursor.atEnd_cons h, newline_of_break hbreak, if_true,
    Bool.false_eq_true, if_false, lineBreak_break h hbreak, hmore]
  change Except.ok (codesOf ((if [readBreak b] != ['\n'] then [readBreak b]
      else if (bs.map readBreak).isEmpty then [' '] else []) ++ bs.map readBreak), _) = _
  rw [hlead, Cursor.skip_succ]

theorem Quotes.row {n : Nat} {b : Char} {more : List Nat}
    (h : c.rest = b :: (bs ++ (List.replicate (k + 1) ' ' ++ t)))
    (hb : ∀ x ∈ b :: bs, isBreak x = true) (ht : firstIs isGap t = false)
    (hq : ∀ e : Cursor, e.rest = t → Quotes double e more (e.skip n)) :
    Quotes double c (codesOf (readBreaks b bs) ++ more)
      (c.skip (bs.length + (k + 1) + 1 + n)) := by
  have hrest : (c.skip (bs.length + (k + 1) + 1)).rest = t := by
    rw [Cursor.rest_skip, h]
    simp [← List.append_assoc]
  rw [Cursor.skip_add]
  exact .spaces h (gap_of_break (hb b (by simp))) (quotedSpaces_breaks h hb ht) (hq _ hrest)

end RouteBook.Yaml.Scan
