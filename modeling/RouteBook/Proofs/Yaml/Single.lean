import RouteBook.Proofs.Yaml.Pen
import RouteBook.Proofs.Yaml.Quoted
import RouteBook.Yaml.Printer

/-! A text in single quotes is written with its line ends, the first line feed of a row twice, and
read back as it was, but for the next-line character, which is taken for a line feed. -/
namespace RouteBook.Yaml
open Pen (Writes)

def isEdge (c : Char) : Bool := c == ' ' || isBreak c

/-- The line feed that is written twice. -/
def extraBreak (bs : List Char) : List Char := if firstIs (· == '\n') bs then ['\n'] else []

inductive SingleText (split : Bool) (inner : Nat) : List Char → List Char → Prop
  | nil : SingleText split inner [] []
  | letter {c : Char} {s t : List Char} : isLetter c = true → c ≠ '\'' →
      SingleText split inner s t → SingleText split inner (c :: s) (c :: t)
  | quote {s t : List Char} : SingleText split inner s t →
      SingleText split inner ('\'' :: s) ('\'' :: '\'' :: t)
  | blanks (m : Nat) {s t : List Char} : firstIs isEdge s = false → SingleText split inner s t →
      SingleText split inner (List.replicate (m + 1) ' ' ++ s) (List.replicate (m + 1) ' ' ++ t)
  | fold {s t : List Char} : split = true → firstIs isEdge s = false → SingleText split inner s t →
      SingleText split inner (' ' :: s) ('\n' :: (List.replicate inner ' ' ++ t))
  | breaks {b : Char} {bs s t : List Char} : (∀ x ∈ b :: bs, isBreak x = true) →
      firstIs isEdge s = false → SingleText split inner s t →
      SingleText split inner (b :: bs ++ s)
        (extraBreak (b :: bs) ++ (b :: bs ++ (List.replicate inner ' ' ++ t)))

/-- Text without special characters, in which no blank stands beside a break. -/
structure Tame (s : List Char) : Prop where
  special : ∀ c ∈ s, isSpecial c = false
  spaceBreak : hasPair (· == ' ') isBreak s = false
  breakSpace : hasPair isBreak (· == ' ') s = false

section Writing
variable {split : Bool} {inner : Nat} {p : Pen} {c : Char} {s : List Char}

theorem hasPair_cons {f g : Char → Bool} (h : hasPair f g (c :: s) = false) :
    hasPair f g s = false ∧ (f c = true → firstIs g s = false) := by
  cases s with
  | nil => simp [hasPair, firstIs]
  | cons d s =>
    simp only [hasPair, Bool.or_eq_false_iff, Bool.and_eq_false_iff] at h
    exact ⟨h.2, fun hc => h.1.resolve_left (by simp [hc])⟩

theorem Tame.tail (h : Tame (c :: s)) : Tame s :=
  ⟨fun d hd => h.special d (by simp [hd]), (hasPair_cons h.spaceBreak).1,
    (hasPair_cons h.breakSpace).1⟩

theorem runOf_chars (h : isLetter c = true) : runOf c = .chars := by
  have hb := isBreak_of_not_newline (newline_of_letter h)
  simp [runOf, ne_blank_of_letter h, hb]

theorem runOf_breaks (h : isBreak c = true) : runOf c = .breaks := by
  have hc : c ≠ ' ' := by
    rintro rfl
    exact absurd h (by decide)
  simp [runOf, hc, h]

def piece (c : Char) : List Char := if c == '\'' then ['\'', '\''] else [c]

theorem reverse_piece (c : Char) : (piece c).reverse = piece c := by
  unfold piece
  split <;> rfl

theorem piece_of_ne (h : c ≠ '\'') : piece c = [c] := by
  simp [piece, h]

theorem writeSingle_same {kind : Run} (h : runOf c = kind) (run : List Char) (first : Bool) :
    writeSingle split inner p kind run first (c :: s) =
      writeSingle split inner p kind (piece c ++ run) first s := by
  rw [writeSingle, if_pos h]
  rfl

theorem writeSingle_other {kind : Run} (h : runOf c ≠ kind) (run : List Char) (first : Bool) :
    writeSingle split inner p kind run first (c :: s) =
      writeSingle split inner
        (if run.isEmpty then p else endRun split inner p kind run.reverse (!first))
        (runOf c) (piece c) (first && run.isEmpty) s := by
  rw [writeSingle, if_neg h]
  rfl

theorem SingleText.piece {t : List Char} (hc : isLetter c = true)
    (h : SingleText split inner s t) : SingleText split inner (c :: s) (piece c ++ t) := by
  by_cases hq : c = '\''
  · subst hq
    exact .quote h
  · rw [piece_of_ne hq]
    exact .letter hc hq h

theorem writes_breaks (b : Char) (bs : List Char) (p : Pen) :
    Writes p ((b :: bs).foldl Pen.lineBreak p) (b :: bs) ∧
      Pen.Fresh 0 ((b :: bs).foldl Pen.lineBreak p) := by
  induction bs generalizing b p with
  | nil => exact ⟨Pen.writes_lineBreak p b, Pen.fresh_lineBreak p b⟩
  | cons b' bs ih =>
    have hmore := ih b' (p.lineBreak b)
    exact ⟨(Pen.writes_lineBreak p b).trans hmore.1, hmore.2⟩

theorem writes_writeBreaks (inner : Nat) (p : Pen) (b : Char) (bs : List Char) :
    Writes p (writeBreaks inner p (b :: bs))
      (extraBreak (b :: bs) ++ (b :: bs ++ List.replicate inner ' ')) := by
  have hextra : Writes p (if firstIs (· == '\n') (b :: bs) then p.lineBreak '\n' else p)
      (extraBreak (b :: bs)) := by
    unfold extraBreak
    split
    · exact Pen.writes_lineBreak p '\n'
    · exact .refl p
  obtain ⟨hbreaks, hfresh⟩ := writes_breaks b bs
    (if firstIs (· == '\n') (b :: bs) then p.lineBreak '\n' else p)
  exact hextra.trans (hbreaks.trans (Pen.writes_indent_start hfresh inner))

theorem writes_endRun_chars (split : Bool) (inner : Nat) (p : Pen) (run : List Char)
    (whole : Bool) :
    Writes p (if run.isEmpty then p else endRun split inner p .chars run.reverse whole)
      run.reverse := by
  cases run with
  | nil => exact .refl p
  | cons c run => exact Pen.writes_write p _

/-- From each state of the writer, after letters, after blanks and after breaks, the rest of a text
is written as it should be. -/
structure Resumes (split : Bool) (inner : Nat) (s : List Char) : Prop where
  letters (p : Pen) (run : List Char) (first : Bool) : ∃ t, SingleText split inner s t ∧
    Writes p (writeSingle split inner p .chars run first s) (run.reverse ++ t)
  blanks (p : Pen) (m : Nat) (first : Bool) : firstIs isBreak s = false → ∃ t,
    SingleText split inner (List.replicate (m + 1) ' ' ++ s) t ∧
    Writes p (writeSingle split inner p .spaces (List.replicate (m + 1) ' ') first s) t
  breaks (p : Pen) (b : Char) (bs : List Char) (first : Bool) : firstIs (· == ' ') s = false →
    (∀ x ∈ b :: bs, isBreak x = true) → ∃ t, SingleText split inner (b :: bs ++ s) t ∧
    Writes p (writeSingle split inner p .breaks (b :: bs).reverse first s) t

theorem resumes_nil (split : Bool) (inner : Nat) : Resumes split inner [] where
  letters p run first := by
    refine ⟨[], .nil, ?_⟩
    rw [List.append_nil]
    exact Pen.writes_write p run.reverse
  blanks p m first _ := by
    refine ⟨_, .blanks m rfl .nil, ?_⟩
    simpa [writeSingle, endRun] using Pen.writes_write p (List.replicate (m + 1) ' ')
  breaks p b bs first _ hb := by
    refine ⟨_, .breaks hb rfl .nil, ?_⟩
    simpa [writeSingle, endRun] using writes_writeBreaks inner p b bs

theorem Resumes.letter (hin : inner ≤ width) (h : Resumes split inner s) (hc : isLetter c = true) :
    Resumes split inner (c :: s) := by
  have hkind := runOf_chars hc
  have hedge : firstIs isEdge (c :: s) = false := by
    have hb := isBreak_of_not_newline (newline_of_letter hc)
    simp [firstIs, isEdge, ne_blank_of_letter hc, hb]
  -- after another run the letter starts one of its own
  have hnew : ∀ q first, ∃ t, SingleText split inner (c :: s) t ∧
      Writes q (writeSingle split inner q .chars (RouteBook.Yaml.piece c) first s) t := by
    intro q first
    obtain ⟨t, htext, hw⟩ := h.letters q (RouteBook.Yaml.piece c) first
    rw [reverse_piece] at hw
    exact ⟨_, htext.piece hc, hw⟩
  refine ⟨fun p run first => ?_, fun p m first _ => ?_, fun p b bs first _ hb => ?_⟩
  · obtain ⟨t, htext, hw⟩ := h.letters p (RouteBook.Yaml.piece c ++ run) first
    refine ⟨_, htext.piece hc, ?_⟩
    rw [writeSingle_same hkind]
    rwa [List.reverse_append, reverse_piece, List.append_assoc] at hw
  · rw [writeSingle_other (by simp [hkind]), hkind, List.reverse_replicate]
    by_cases hfold : m = 0 ∧ width < p.column ∧ split = true ∧ first = false
    · obtain ⟨rfl, hwidth, hsplit, rfl⟩ := hfold
      obtain ⟨t, htext, hw⟩ := hnew (p.indent inner) false
      refine ⟨_, .fold hsplit hedge htext, ?_⟩
      have hbreak := Pen.writes_indent_break (.inr (Nat.lt_of_le_of_lt hin hwidth))
      simpa [endRun, hwidth, hsplit] using hbreak.trans hw
    · obtain ⟨t, htext, hw⟩ := hnew (p.write (List.replicate (m + 1) ' ')) false
      refine ⟨_, .blanks m hedge htext, ?_⟩
      have hkeep : ¬ (((m = 0 ∧ width < p.column) ∧ split = true) ∧ first = false) := by
        rwa [and_assoc, and_assoc]
      simpa [endRun, hkeep] using (Pen.writes_write p (List.replicate (m + 1) ' ')).trans hw
  · have hrun : (b :: bs).reverse.isEmpty = false := by simp
    rw [writeSingle_other (by simp [hkind]), hkind, hrun, List.reverse_reverse, Bool.and_false]
    obtain ⟨t, htext, hw⟩ := hnew (writeBreaks inner p (b :: bs)) false
    refine ⟨_, .breaks hb hedge htext, ?_⟩
    simpa [endRun] using (writes_writeBreaks inner p b bs).trans hw

theorem Resumes.blank (h : Resumes split inner s) (hs : firstIs isBreak s = false) :
    Resumes split inner (' ' :: s) := by
  refine ⟨fun p run first => ?_, fun p m first _ => ?_, fun p b bs first hne _ => ?_⟩
  · rw [writeSingle_other (by decide)]
    obtain ⟨t, htext, hw⟩ := h.blanks _ 0 (first && run.isEmpty) hs
    exact ⟨t, htext, (writes_endRun_chars split inner p run (!first)).trans hw⟩
  · rw [writeSingle_same (by decide)]
    obtain ⟨t, htext, hw⟩ := h.blanks p (m + 1) first hs
    refine ⟨t, ?_, hw⟩
    rwa [List.replicate_succ', List.append_assoc] at htext
  · simp [firstIs] at hne

theorem Resumes.break (h : Resumes split inner s) (hc : isBreak c = true)
    (hs : firstIs (· == ' ') s = false) : Resumes split inner (c :: s) := by
  have hkind := runOf_breaks hc
  have hpiece : RouteBook.Yaml.piece c = [c] := by
    refine piece_of_ne ?_
    rintro rfl
    exact absurd hc (by decide)
  refine ⟨fun p run first => ?_, fun p m first hne => ?_, fun p b bs first _ hb => ?_⟩
  · rw [writeSingle_other (by simp [hkind]), hkind, hpiece]
    obtain ⟨t, htext, hw⟩ := h.breaks (if run.isEmpty then p
      else endRun split inner p .chars run.reverse (!first)) c [] (first && run.isEmpty) hs
      (by simpa using hc)
    exact ⟨t, htext, (writes_endRun_chars split inner p run (!first)).trans hw⟩
  · simp [firstIs, hc] at hne
  · rw [writeSingle_same hkind, hpiece]
    have hall : ∀ x ∈ b :: (bs ++ [c]), isBreak x = true := by
      simp only [List.mem_cons, List.mem_append, List.not_mem_nil, or_false]
      rintro x (rfl | hx | rfl)
      · exact hb x (by simp)
      · exact hb x (by simp [hx])
      · exact hc
    obtain ⟨t, htext, hw⟩ := h.breaks p b (bs ++ [c]) first hs hall
    exact ⟨t, by simpa using htext, by simpa using hw⟩

theorem resumes_of_tame (split : Bool) (hin : inner ≤ width) (h : Tame s) :
    Resumes split inner s := by
  induction s with
  | nil => exact resumes_nil split inner
  | cons c s ih =>
    have hmore := ih h.tail
    by_cases hblank : c = ' '
    · subst hblank
      exact hmore.blank ((hasPair_cons h.spaceBreak).2 rfl)
    · cases hbreak : isBreak c with
      | true => exact hmore.break hbreak ((hasPair_cons h.breakSpace).2 hbreak)
      | false =>
        exact hmore.letter hin (letter_of_not_special (h.special c (by simp)) hbreak hblank)

theorem tame_of_allowSingle (h : (analyze s).allowSingle = true) : Tame s := by
  cases s with
  | nil => exact ⟨by simp, rfl, rfl⟩
  | cons c s =>
    simp only [analyze, Bool.not_eq_true', Bool.or_eq_false_iff, List.any_eq_false,
      Bool.not_eq_true] at h
    exact ⟨h.2.1, h.2.2, h.1⟩

theorem writes_single (split : Bool) (hin : inner ≤ width) (p : Pen)
    (h : (analyze s).allowSingle = true) :
    ∃ t, Writes p (single split inner p s) (p.lead ++ '\'' :: (t ++ ['\''])) ∧
      SingleText split inner s t ∧ (single split inner p s).Solid := by
  obtain ⟨t, htext, hw⟩ := (resumes_of_tame split hin (tame_of_allowSingle h)).letters
    (p.mark ['\''] true false false) [] true
  refine ⟨t, ?_, htext, Pen.solid_mark _ _ _⟩
  have hopen := (Pen.writes_mark p ['\''] false false).trans hw
  have hclose := hopen.trans (Pen.writes_mark_close _ ['\''] false false)
  simpa [single] using hclose

theorem SingleText.legible {t : List Char} (h : SingleText split inner s t)
    (hs : ∀ c ∈ s, Legible split c) : ∀ c ∈ t, Legible split c := by
  have hblanks : ∀ c ∈ List.replicate inner ' ', Legible split c := by
    intro c hc
    rw [List.eq_of_mem_replicate hc]
    exact legible_blank split
  induction h with
  | nil => exact hs
  | letter _ _ _ ih =>
    rw [List.forall_mem_cons] at hs ⊢
    exact ⟨hs.1, ih hs.2⟩
  | quote _ ih =>
    simp only [List.forall_mem_cons] at hs ⊢
    exact ⟨hs.1, hs.1, ih hs.2⟩
  | blanks m _ _ ih =>
    rw [List.forall_mem_append] at hs ⊢
    exact ⟨hs.1, ih hs.2⟩
  | fold hsplit _ _ ih =>
    rw [List.forall_mem_cons] at hs
    simp only [List.forall_mem_cons, List.forall_mem_append]
    exact ⟨legible_lineFeed hsplit, hblanks, ih hs.2⟩
  | @breaks b bs s t _ _ _ ih =>
    rw [List.forall_mem_append] at hs
    have hextra : ∀ c ∈ extraBreak (b :: bs), Legible split c := by
      unfold extraBreak
      split
      · rename_i hb
        have hb' : b = '\n' := by simpa [firstIs] using hb
        simpa [hb'] using hs.1 b (by simp)
      · simp
    simp only [List.forall_mem_append]
    exact ⟨hextra, hs.1, hblanks, ih hs.2⟩

theorem SingleText.eq_of_line {t : List Char} (h : SingleText false inner s t)
    (hs : ∀ c ∈ s, isBreak c = false) : t = s.flatMap RouteBook.Yaml.piece := by
  induction h with
  | nil => rfl
  | letter _ hq _ ih =>
    rw [List.forall_mem_cons] at hs
    rw [List.flatMap_cons, piece_of_ne hq, ih hs.2]
    rfl
  | quote _ ih =>
    rw [List.forall_mem_cons] at hs
    rw [List.flatMap_cons, ih hs.2]
    rfl
  | blanks m _ _ ih =>
    rw [List.forall_mem_append] at hs
    have hblank : RouteBook.Yaml.piece ' ' = [' '] := rfl
    simp [List.flatMap_append, ih hs.2, List.flatMap_replicate, hblank]
  | fold hsplit _ _ _ => cases hsplit
  | @breaks b _ _ _ hb _ _ _ =>
    have hbreak := hs b (by simp)
    simp [hb b (by simp)] at hbreak

end Writing

/-- How a text in single quotes is read: a next-line character is taken for a line feed, so that it
is dropped before other breaks and becomes a blank when it stands alone. `after` tells that a break
stands before. -/
def readNel (after : Bool) : List Char → List Char
  | [] => []
  | c :: s =>
    if c = '\x85' then
      if after then '\n' :: readNel true s
      else if firstIs isBreak s then readNel true s
      else ' ' :: readNel true s
    else c :: readNel (isBreak c) s

theorem nel_not_mem_readNel (after : Bool) (s : List Char) : '\x85' ∉ readNel after s := by
  induction s generalizing after with
  | nil => simp [readNel]
  | cons c s ih =>
    unfold readNel
    split_ifs with hc
    · simp [ih]
    · exact ih true
    · simp [ih]
    · simp [Ne.symm hc, ih]

theorem readNel_of_not_mem {s : List Char} (h : '\x85' ∉ s) (after : Bool) :
    readNel after s = s := by
  induction s generalizing after with
  | nil => rfl
  | cons c s ih =>
    simp only [List.mem_cons, not_or] at h
    rw [readNel, if_neg (Ne.symm h.1), ih h.2]

section Reading
open Scan
variable {split : Bool} {inner : Nat} {c d : Cursor} {ch : Char} {s t tail bs : List Char}

theorem readNel_letter (h : isBreak ch = false) (after : Bool) (s : List Char) :
    readNel after (ch :: s) = ch :: readNel false s := by
  have hne : ch ≠ '\x85' := by
    rintro rfl
    exact absurd h (by decide)
  rw [readNel, if_neg hne, h]

theorem readNel_blanks (m : Nat) (after : Bool) (s : List Char) :
    readNel after (List.replicate (m + 1) ' ' ++ s) =
      List.replicate (m + 1) ' ' ++ readNel false s := by
  induction m generalizing after with
  | zero => exact readNel_letter (by decide) after s
  | succ m ih =>
    rw [List.replicate_succ, List.cons_append, readNel_letter (by decide), ih]
    rfl

theorem readNel_edge (h : firstIs isEdge s = false) : readNel true s = readNel false s := by
  cases s with
  | nil => rfl
  | cons ch s =>
    simp only [firstIs, isEdge, Bool.or_eq_false_iff] at h
    rw [readNel_letter h.2, readNel_letter h.2]

theorem readNel_breaks (hb : ∀ x ∈ bs, isBreak x = true) (s : List Char) :
    readNel true (bs ++ s) = bs.map readBreak ++ readNel true s := by
  induction bs with
  | nil => rfl
  | cons b bs ih =>
    have hmore := ih fun x hx => hb x (by simp [hx])
    by_cases hnel : b = '\x85'
    · simp [readNel, hnel, readBreak, hmore]
    · simp [readNel, hnel, readBreak, hb b (by simp), hmore]

/-- A row of breaks as it is written, a line feed at its start twice, and as it is read. -/
theorem readNel_row {b : Char} (hb : ∀ x ∈ b :: bs, isBreak x = true)
    (hs : firstIs isEdge s = false) :
    ∃ d row, extraBreak (b :: bs) ++ (b :: bs) = d :: row ∧ (∀ x ∈ d :: row, isBreak x = true) ∧
      readNel false (b :: bs ++ s) = readBreaks d row ++ readNel false s := by
  have hrow : ∀ x ∈ bs, isBreak x = true := fun x hx => hb x (by simp [hx])
  have hmore := readNel_breaks hrow s
  rw [readNel_edge hs] at hmore
  by_cases hlf : b = '\n'
  · subst hlf
    refine ⟨'\n', '\n' :: bs, by simp [extraBreak, firstIs], by simpa [isBreak] using hb, ?_⟩
    simp [readNel, isBreak, hmore, readBreaks, readBreak]
  · refine ⟨b, bs, by simp [extraBreak, firstIs, hlf], hb, ?_⟩
    by_cases hnel : b = '\x85'
    · subst hnel
      cases bs with
      | nil =>
        have hbreak : firstIs isBreak s = false := by
          cases s with
          | nil => rfl
          | cons ch s =>
            simp only [firstIs, isEdge, Bool.or_eq_false_iff] at hs
            exact hs.2
        simp [readNel, hbreak, readNel_edge hs, readBreaks, readBreak]
      | cons x bs =>
        have hx := hb x (by simp)
        simpa [readNel, firstIs, hx, readBreaks, readBreak] using hmore
    · simp [readNel, hnel, hb b (by simp), hmore, readBreaks, readBreak, hlf]

theorem SingleText.opens (h : SingleText split inner s t) (hs : firstIs isEdge s = false) :
    firstIs isGap (t ++ '\'' :: tail) = false := by
  cases h with
  | nil => rfl
  | letter hc _ _ => exact gap_of_letter hc
  | quote _ => rfl
  | blanks m _ _ => simp [List.replicate_succ, firstIs, isEdge] at hs
  | fold _ _ _ => simp [firstIs, isEdge] at hs
  | breaks hb _ _ => simp [firstIs, isEdge, hb] at hs

theorem quotes_single (h : SingleText split inner s t) (hin : 0 < inner)
    (ht : firstIs (· == '\'') tail = false) (hr : c.rest = t ++ '\'' :: tail) :
    Quotes false c (codesOf (readNel false s)) (c.skip (t.length + 1)) := by
  obtain ⟨k, rfl⟩ : ∃ k, inner = k + 1 := ⟨inner - 1, by omega⟩
  induction h generalizing c with
  | nil => exact .close_single hr ht
  | @letter ch s t hc hq _ ih =>
    have hnext : c.next.rest = t ++ '\'' :: tail := by
      rw [Cursor.rest_next, hr]
      rfl
    rw [readNel_letter (isBreak_of_not_newline (newline_of_letter hc))]
    exact .char hr (gap_of_letter hc) (.inl hq) (.inr rfl) (ih hnext)
  | @quote s t _ ih =>
    have hnext : (c.skip 2).rest = t ++ '\'' :: tail := by
      rw [Cursor.rest_skip, hr]
      rfl
    rw [readNel_letter (by decide)]
    exact .mark hr (ih hnext)
  | @blanks m s t hs htext ih =>
    rw [List.append_assoc] at hr
    obtain ⟨x, xs, hx⟩ : ∃ x xs, t ++ '\'' :: tail = x :: xs :=
      List.exists_cons_of_ne_nil (by simp)
    have hopen : firstIs isGap (t ++ '\'' :: tail) = false := htext.opens hs
    have hrest := Cursor.rest_skip_append hr
    rw [hx] at hr hopen
    have hgap := quotedSpaces_blanks hr hopen
    rw [List.length_replicate] at hrest
    rw [readNel_blanks, codesOf, List.map_append, List.length_append, List.length_replicate,
      Nat.add_assoc, Cursor.skip_add]
    exact .spaces hr (by decide) hgap (ih hrest)
  | @fold s t _ hs htext ih =>
    have hrow : c.rest = '\n' :: ([] ++ (List.replicate (k + 1) ' ' ++ (t ++ '\'' :: tail))) := by
      simpa using hr
    have hlen : ('\n' :: (List.replicate (k + 1) ' ' ++ t)).length + 1 =
        0 + (k + 1) + 1 + (t.length + 1) := by
      simp only [List.length_cons, List.length_append, List.length_replicate]
      omega
    rw [readNel_letter (by decide), hlen]
    exact .row hrow (by simp [isBreak]) (htext.opens hs) fun e he => ih he
  | @breaks b bs s t hb hs htext ih =>
    obtain ⟨d, row, hd, hrow, hread⟩ := readNel_row hb hs
    have hwritten : extraBreak (b :: bs) ++ (b :: bs ++ (List.replicate (k + 1) ' ' ++ t)) =
        d :: (row ++ (List.replicate (k + 1) ' ' ++ t)) := by
      rw [← List.append_assoc, hd]
      rfl
    have hlen : (d :: (row ++ (List.replicate (k + 1) ' ' ++ t))).length + 1 =
        row.length + (k + 1) + 1 + (t.length + 1) := by
      simp only [List.length_cons, List.length_append, List.length_replicate]
      omega
    rw [hwritten] at hr ⊢
    rw [hread, codesOf, List.map_append, hlen]
    exact .row (by simpa using hr) hrow (htext.opens hs) fun e he => ih he

end Reading

end RouteBook.Yaml
