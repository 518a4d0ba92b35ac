import RouteBook.Proofs.Yaml.Pen
import RouteBook.Proofs.Yaml.Style
import RouteBook.Yaml.Printer

/-! A bare text is written word by word, and a blank between two words may become the end of a
line; the words are read back with one blank for each such line end. -/
namespace RouteBook.Yaml
open Pen (Writes)

structure Word (w : List Char) : Prop where
  ne_nil : w ≠ []
  letters : ∀ c ∈ w, isLetter c = true
  start : firstIs (· == '#') w = false
  ending : w.getLast? ≠ some ':'

inductive Gap (split : Bool) (inner : Nat) : List Char → List Char → Prop
  | kept (m : Nat) : Gap split inner (List.replicate (m + 1) ' ') (List.replicate (m + 1) ' ')
  | folded : split = true → Gap split inner [' '] ('\n' :: List.replicate inner ' ')

inductive BareText (split : Bool) (inner : Nat) : List Char → List Char → Prop
  | word {w : List Char} : Word w → BareText split inner w w
  | more {w g h s t : List Char} : Word w → Gap split inner g h → BareText split inner s t →
      BareText split inner (w ++ (g ++ s)) (w ++ (h ++ t))

structure Flows (previous : Char) (s : List Char) : Prop where
  letters : ∀ c ∈ s, c = ' ' ∨ isLetter c = true
  inside : badInside previous s = false
  ending : s.getLast? ≠ some ' '
  colon : previous = ':' → endsWord s = false

section Writing
variable {split : Bool} {inner m : Nat} {p : Pen} {c previous : Char} {s run : List Char}

theorem Flows.tail (h : Flows previous (c :: s)) : Flows c s := by
  have hin := h.inside
  simp only [badInside, Bool.or_eq_false_iff, Bool.and_eq_false_iff] at hin
  refine ⟨fun d hd => h.letters d (List.mem_cons_of_mem c hd), hin.2, ?_, ?_⟩
  · intro hlast
    cases s with
    | nil => simp at hlast
    | cons d s => exact h.ending (by simpa using hlast)
  · rintro rfl
    simpa using hin.1.1

theorem Flows.ne_hash (h : Flows ' ' (c :: s)) : c ≠ '#' := by
  rintro rfl
  exact absurd h.inside (by simp [badInside, isSpaceOrBreak])

/-- A word ends where a blank or nothing follows. -/
theorem word_of_run (hrun : ∀ d ∈ previous :: run, isLetter d = true)
    (hstart : firstIs (· == '#') (previous :: run).reverse = false) (h : Flows previous s)
    (hs : endsWord s = true) : Word (previous :: run).reverse := by
  refine ⟨by simp, fun d hd => hrun d (List.mem_reverse.mp hd), hstart, ?_⟩
  rw [List.getLast?_reverse, List.head?_cons]
  intro hcolon
  have hends := h.colon (Option.some.inj hcolon)
  simp [hs] at hends

theorem writes_fold (hp : p.indented = false) (n : Nat) :
    Writes p (p.indent n).solid ('\n' :: List.replicate n ' ') :=
  Pen.writes_indent_break (.inl hp)

/-- Both states of the writer at once: inside a word, and after some blanks. -/
theorem writeBare_text (split : Bool) (inner : Nat) (s : List Char) :
    (∀ previous run p, Flows previous s → (∀ d ∈ previous :: run, isLetter d = true) →
      firstIs (· == '#') (previous :: run).reverse = false → p.indented = false →
      ∃ t, Writes p (writeBare split inner p (previous :: run) false s) t ∧
        BareText split inner ((previous :: run).reverse ++ s) t) ∧
    (∀ m p, Flows ' ' s → s ≠ [] → p.indented = false →
      ∃ g h s' t, List.replicate (m + 1) ' ' ++ s = g ++ s' ∧ Gap split inner g h ∧
        BareText split inner s' t ∧
        Writes p (writeBare split inner p (List.replicate (m + 1) ' ') true s) (h ++ t)) := by
  induction s with
  | nil =>
    refine ⟨?_, fun m p _ hs => absurd rfl hs⟩
    intro previous run p hflow hrun hstart hp
    refine ⟨(previous :: run).reverse, Pen.writes_write _ _, ?_⟩
    rw [List.append_nil]
    exact .word (word_of_run hrun hstart hflow rfl)
  | cons c s ih =>
    constructor
    · -- inside a word: a blank ends it, anything else is its next letter
      intro previous run p hflow hrun hstart hp
      by_cases hc : c = ' '
      · subst hc
        have hword := word_of_run hrun hstart hflow rfl
        have hs : s ≠ [] := by
          rintro rfl
          exact hflow.ending rfl
        obtain ⟨g, h, s', t, heq, hgap, htext, hw⟩ :=
          ih.2 0 (p.write (previous :: run).reverse) hflow.tail hs hp
        refine ⟨(previous :: run).reverse ++ (h ++ t), ?_, ?_⟩
        · exact (Pen.writes_write p _).trans hw
        · have heq' : ' ' :: s = g ++ s' := heq
          rw [heq']
          exact .more hword hgap htext
      · have hletter : isLetter c = true :=
          (hflow.letters c (by simp)).resolve_left hc
        have hstart' : firstIs (· == '#') (c :: previous :: run).reverse = false := by
          rw [List.reverse_cons]
          cases hr : (previous :: run).reverse with
          | nil => simp at hr
          | cons d ds =>
            rw [hr] at hstart
            exact hstart
        obtain ⟨t, hw, htext⟩ := ih.1 c (previous :: run) p hflow.tail
          (by simpa [hletter] using hrun) hstart' hp
        refine ⟨t, ?_, by simpa using htext⟩
        simpa [writeBare, hc] using hw
    · intro m p hflow _ hp
      by_cases hc : c = ' '
      · subst hc
        have hs : s ≠ [] := by
          rintro rfl
          exact hflow.ending rfl
        obtain ⟨g, h, s', t, heq, hgap, htext, hw⟩ := ih.2 (m + 1) p hflow.tail hs hp
        refine ⟨g, h, s', t, ?_, hgap, htext, ?_⟩
        · rw [← heq, List.replicate_succ' (n := m + 1), List.append_assoc]
          rfl
        · simpa [writeBare, ← List.replicate_succ] using hw
      · have hletter : isLetter c = true :=
          (hflow.letters c (by simp)).resolve_left hc
        have hstart : firstIs (· == '#') [c].reverse = false := by
          simpa [firstIs] using hflow.ne_hash
        by_cases hfold : m = 0 ∧ width < p.column ∧ split = true
        · obtain ⟨rfl, hwidth, hsplit⟩ := hfold
          obtain ⟨t, hw, htext⟩ := ih.1 c [] (p.indent inner).solid hflow.tail
            (by simpa using hletter) hstart rfl
          refine ⟨[' '], _, c :: s, t, rfl, .folded hsplit, by simpa using htext, ?_⟩
          simpa [writeBare, hc, hwidth, hsplit] using (writes_fold hp inner).trans hw
        · obtain ⟨t, hw, htext⟩ := ih.1 c [] (p.write (List.replicate (m + 1) ' ')) hflow.tail
            (by simpa using hletter) hstart hp
          refine ⟨_, _, c :: s, t, rfl, .kept m, by simpa using htext, ?_⟩
          have hkeep : ¬ ((m = 0 ∧ width < p.column) ∧ split = true) := by
            rwa [and_assoc]
          simpa [writeBare, hc, hkeep] using
            (Pen.writes_write p (List.replicate (m + 1) ' ')).trans hw

theorem solid_writeBare (split : Bool) (inner : Nat) (spaces : Bool) (hp : p.Solid) :
    (writeBare split inner p run spaces s).Solid := by
  induction s generalizing p run spaces with
  | nil => exact ⟨hp.blank, hp.indented⟩
  | cons c s ih =>
    have hwrite : (p.write run.reverse).Solid := ⟨hp.blank, hp.indented⟩
    unfold writeBare
    split_ifs
    · exact ih true hp
    · exact ih false (Pen.solid_solid _)
    · exact ih false hwrite
    · exact ih true hwrite
    · exact ih false hp

theorem bare_facts (h : (analyze (c :: s)).allowBare = true) :
    Flows c s ∧ isLetter c = true ∧ c ≠ '#' ∧ isMarker (c :: s) = false ∧
      badStart (c :: s) = false ∧ ∀ d ∈ c :: s, isSpecial d = false ∧ isBreak d = false := by
  simp only [analyze, Bool.not_eq_true', Bool.or_eq_false_iff, List.any_eq_false,
    Bool.not_eq_true] at h
  obtain ⟨⟨⟨⟨⟨⟨⟨hfirst, hlast⟩, -⟩, hspecial, -⟩, hbreak⟩, hmarker⟩, hstart⟩, hinside⟩ := h
  have hclear : ∀ d ∈ c :: s, isSpecial d = false ∧ isBreak d = false :=
    fun d hd => ⟨hspecial d hd, hbreak d hd⟩
  have hletters : ∀ d ∈ c :: s, d = ' ' ∨ isLetter d = true := by
    intro d hd
    by_cases hblank : d = ' '
    · exact .inl hblank
    · exact .inr (letter_of_not_special (hclear d hd).1 (hclear d hd).2 hblank)
  have hc : isLetter c = true := by
    refine (hletters c (by simp)).resolve_left ?_
    rintro rfl
    simp at hfirst
  have hhash : c ≠ '#' := by
    rintro rfl
    simp [badStart] at hstart
  refine ⟨⟨fun d hd => hletters d (by simp [hd]), hinside, ?_, ?_⟩, hc, hhash, hmarker, hstart,
    hclear⟩
  · intro hblank
    have hrev : (c :: s).reverse.head? = some ' ' := by
      rw [List.head?_reverse]
      cases s with
      | nil => simp at hblank
      | cons d s => simpa using hblank
    obtain ⟨ds, hds⟩ := List.head?_eq_some_iff.mp hrev
    simp [hds, firstIs] at hlast
  · rintro rfl
    simpa [badStart] using hstart

theorem writes_bare (split : Bool) (inner : Nat) (p : Pen)
    (h : (analyze (c :: s)).allowBare = true) :
    ∃ t, Writes p (bare split inner p (c :: s)) (p.lead ++ t) ∧
      BareText split inner (c :: s) t ∧ (bare split inner p (c :: s)).Solid := by
  obtain ⟨hflow, hc, hhash, -⟩ := bare_facts h
  have hstart : firstIs (· == '#') [c].reverse = false := by simpa [firstIs] using hhash
  have hlead : Writes p (if p.blank then p else p.write [' ']).solid p.lead := by
    unfold Pen.lead
    split
    · exact Writes.refl p
    · exact Pen.writes_write p [' ']
  have hone : bare split inner p (c :: s) =
      writeBare split inner (if p.blank then p else p.write [' ']).solid [c] false s := by
    simp [bare, writeBare, ne_blank_of_letter hc]
  obtain ⟨t, hw, htext⟩ := (writeBare_text split inner s).1 c []
    (if p.blank then p else p.write [' ']).solid hflow (by simpa using hc) hstart rfl
  rw [hone]
  exact ⟨t, hlead.trans hw, by simpa using htext, solid_writeBare _ _ _ (Pen.solid_solid _)⟩

theorem BareText.legible {s t : List Char} (h : BareText split inner s t)
    (hs : ∀ c ∈ s, Legible split c) : ∀ c ∈ t, Legible split c := by
  induction h with
  | word _ => exact hs
  | @more w g h s t _ hg _ ih =>
    intro c hc
    simp only [List.mem_append] at hs hc
    rcases hc with hc | hc | hc
    · exact hs c (.inl hc)
    · cases hg with
      | kept m => exact hs c (.inr (.inl hc))
      | folded hsplit =>
        rcases List.mem_cons.mp hc with rfl | hc
        · exact legible_lineFeed hsplit
        · rw [List.eq_of_mem_replicate hc]
          exact legible_blank split
    · exact ih (fun c hc => hs c (.inr (.inr hc))) c hc

theorem BareText.eq_of_line {s t : List Char} (h : BareText false inner s t) : t = s := by
  induction h with
  | word _ => rfl
  | more _ hg _ ih =>
    cases hg with
    | kept m => rw [ih]
    | folded hsplit => cases hsplit

end Writing

section Reading
variable {split broke a : Bool} {inner k m fuel : Nat} {column : Int} {c d : Cursor} {ch : Char}
  {s t w gap tail next spaces : List Char}

theorem bareRun_append (hw : ∀ ch ∈ w, isLetter ch = true) (he : w.getLast? ≠ some ':')
    (ht : Scan.bareRun false t = []) : Scan.bareRun false (w ++ t) = w := by
  induction w with
  | nil => exact ht
  | cons ch w ih =>
    have hch := space_of_letter (hw ch (by simp))
    have hmore : Scan.bareRun false (w ++ t) = w := by
      refine ih (fun x hx => hw x (by simp [hx])) ?_
      cases w with
      | nil => simp
      | cons x w => simpa using he
    have hcolon : (ch == ':' && endsWord (w ++ t)) = false := by
      cases w with
      | nil =>
        have hne : ch ≠ ':' := by
          rintro rfl
          exact he rfl
        simp [hne]
      | cons x w => simp [endsWord, space_of_letter (hw x (by simp))]
    simp [Scan.bareRun, hch, hcolon, hmore]

theorem BareText.opens (h : BareText split inner s t) :
    ∃ ch t', t = ch :: t' ∧ isLetter ch = true ∧ ch ≠ '#' := by
  have hword : ∀ {w : List Char} (t : List Char), Word w →
      ∃ ch t', w ++ t = ch :: t' ∧ isLetter ch = true ∧ ch ≠ '#' := by
    intro w t hw
    obtain ⟨ch, w', rfl⟩ := List.exists_cons_of_ne_nil hw.ne_nil
    exact ⟨ch, w' ++ t, rfl, hw.letters ch (by simp), by simpa [firstIs] using hw.start⟩
  cases h with
  | word hw => simpa using hword [] hw
  | more hw _ _ => exact hword _ hw

theorem bareSpaces_kept (h : c.rest = List.replicate (m + 1) ' ' ++ ch :: t)
    (hch : isLetter ch = true) :
    Scan.bareSpaces c = (List.replicate (m + 1) ' ', false, c.skip (m + 1)) := by
  have hblank := ne_blank_of_letter hch
  have hspan := Cursor.span_run (p := (· == ' ')) h (by simp) (by simpa [firstIs] using hblank)
  have hrest := Cursor.rest_skip_append h
  rw [List.length_replicate] at hspan hrest
  unfold Scan.bareSpaces
  rw [hspan]
  simp [Cursor.peek_cons hrest, newline_of_letter hch]

theorem breaks_blanks (h : c.rest = List.replicate k ' ' ++ next)
    (hnext : firstIs (fun ch => ch == ' ' || isNewline ch) next = false) (hf : k < fuel) :
    Scan.bareSpaces.breaks fuel c = (some [], c.skip k) := by
  induction k generalizing c fuel with
  | zero =>
    obtain ⟨fuel, rfl⟩ : ∃ f, fuel = f + 1 := ⟨fuel - 1, by omega⟩
    have hrest : c.rest = next := by simpa using h
    cases next with
    | nil => simp [Scan.bareSpaces.breaks, Cursor.peek, Cursor.atEnd, hrest, Cursor.skip]
    | cons ch next =>
      simp only [firstIs, Bool.or_eq_false_iff] at hnext
      simp [Scan.bareSpaces.breaks, Cursor.peek_cons hrest, hnext, Cursor.skip]
  | succ k ih =>
    obtain ⟨fuel, rfl⟩ : ∃ f, fuel = f + 1 := ⟨fuel - 1, by omega⟩
    rw [List.replicate_succ, List.cons_append] at h
    have hrest : c.next.rest = List.replicate k ' ' ++ next := by
      rw [Cursor.rest_next, h, List.drop_one, List.tail_cons]
    simp [Scan.bareSpaces.breaks, Cursor.peek_cons h, ih hrest (Nat.lt_of_succ_lt_succ hf),
      Cursor.skip_succ]

theorem bareSpaces_line (h : c.rest = '\n' :: (List.replicate k ' ' ++ next))
    (hnext : firstIs (fun ch => ch == ' ' || isNewline ch) next = false)
    (hmark : c.next.atMarker = false) :
    Scan.bareSpaces c = ([' '], true, c.skip (k + 1)) := by
  have hrest : c.next.rest = List.replicate k ' ' ++ next := by
    rw [Cursor.rest_next, h, List.drop_one, List.tail_cons]
  have hspan : c.span (· == ' ') = ([], c) :=
    Cursor.span_run (w := []) h rfl (by simp [firstIs])
  have hfuel : k < c.next.rest.length.succ := by
    simp only [hrest, List.length_append, List.length_replicate]
    omega
  have hbreaks := breaks_blanks hrest hnext hfuel
  unfold Scan.bareSpaces
  rw [hspan]
  simp [Cursor.peek_cons h, Cursor.atEnd_cons h, isNewline, isBreak, Cursor.lineBreak_lineFeed h,
    hmark, hbreaks, Cursor.skip_succ]

theorem bareBody_word (hw : Word w) (h : c.rest = w ++ tail)
    (htail : Scan.bareRun false tail = [])
    (hspaces : Scan.bareSpaces (c.skip w.length) = (gap, broke, d)) :
    Scan.bareBody false column (fuel + 1) spaces a c =
      if gap.isEmpty || d.peek == '#' || decide ((d.column : Int) < column) then
        (spaces ++ w, broke, d)
      else
        (spaces ++ w ++ (Scan.bareBody false column fuel gap broke d).1,
          (Scan.bareBody false column fuel gap broke d).2) := by
  obtain ⟨ch, w', hcons⟩ := List.exists_cons_of_ne_nil hw.ne_nil
  have hpeek : (c.peek == '#') = false := by
    have hstart := hw.start
    rw [hcons] at h hstart
    rw [Cursor.peek_cons h]
    exact hstart
  have hrun := bareRun_append hw.letters hw.ending htail
  have hne : w.isEmpty = false := by simpa using hw.ne_nil
  simp only [Scan.bareBody, h, hrun, hpeek, Bool.false_eq_true, if_false, hne, hspaces,
    Bool.not_false, Bool.true_and]

theorem Gap.ne_nil {g h : List Char} (hg : Gap split inner g h) : g.isEmpty = false := by
  cases hg <;> simp

theorem Gap.bareRun_append {g h : List Char} (hg : Gap split inner g h) (t : List Char) :
    Scan.bareRun false (h ++ t) = [] := by
  cases hg <;> simp [Scan.bareRun, isSpaceOrBreak, isBreak, List.replicate_succ]

theorem Gap.reads {g h : List Char} (hg : Gap split inner g h) (hr : c.rest = h ++ ch :: t)
    (hch : isLetter ch = true) (hin : 0 < inner) :
    ∃ broke, Scan.bareSpaces c = (g, broke, c.skip h.length) ∧
      min (c.column + 1) inner ≤ (c.skip h.length).column := by
  cases hg with
  | kept m =>
    refine ⟨false, by simpa using bareSpaces_kept hr hch, ?_⟩
    rw [Cursor.skip_inline hr (Cursor.all_inline_replicate _), List.length_replicate]
    simp only
    omega
  | folded _ =>
    have hline : c.rest = '\n' :: (List.replicate inner ' ' ++ ch :: t) := hr
    have hfirst : firstIs (fun ch => ch == ' ' || isNewline ch) (ch :: t) = false := by
      simp [firstIs, ne_blank_of_letter hch, newline_of_letter hch]
    have hmark : c.next.atMarker = false := by
      refine Cursor.atMarker_of_rest (isMarker_of_first ?_)
      obtain ⟨j, rfl⟩ : ∃ j, inner = j + 1 := ⟨inner - 1, by omega⟩
      simp [Cursor.rest_next, hline, List.replicate_succ, firstIs]
    refine ⟨true, by simpa using bareSpaces_line hline hfirst hmark, ?_⟩
    rw [List.length_cons, List.length_replicate, Cursor.skip_line hline]
    simp only
    omega

/-- A bare text is read back, up to where it stops. -/
theorem bareBody_text (h : BareText split inner s t) (hin : 0 < inner)
    (hcolumn : column ≤ inner) (htail : Scan.bareRun false tail = [])
    (hstop : (gap.isEmpty || d.peek == '#' || decide ((d.column : Int) < column)) = true)
    (hf : t.length ≤ fuel) (hr : c.rest = t ++ tail) (hc : column ≤ c.column + 1)
    (hspaces : Scan.bareSpaces (c.skip t.length) = (gap, broke, d)) :
    Scan.bareBody false column fuel spaces a c = (spaces ++ s, broke, d) := by
  induction h generalizing c fuel spaces a with
  | @word w hw =>
    have hlen := List.length_pos_iff.mpr hw.ne_nil
    obtain ⟨fuel, rfl⟩ : ∃ f, fuel = f + 1 := ⟨fuel - 1, by omega⟩
    rw [bareBody_word hw hr htail hspaces, if_pos hstop]
  | @more w g h s t hw hg htext ih =>
    have hlen := List.length_pos_iff.mpr hw.ne_nil
    simp only [List.length_append] at hf
    obtain ⟨fuel, rfl⟩ : ∃ f, fuel = f + 1 := ⟨fuel - 1, by omega⟩
    obtain ⟨ch, t', rfl, hch, hhash⟩ := htext.opens
    rw [List.append_assoc, List.append_assoc] at hr
    have hrest := Cursor.rest_skip_append hr
    have hw' := Cursor.skip_inline hr
      (List.all_eq_true.mpr fun x hx => inline_of_letter (hw.letters x hx))
    obtain ⟨b, hgap, hcol⟩ := hg.reads hrest hch hin
    have hd := Cursor.rest_skip_append hrest
    have hcol' : column ≤ ((c.skip w.length).skip h.length).column := by
      rw [hw'] at hcol ⊢
      simp only at hcol
      omega
    -- the gap leads neither to a comment nor to the left of the column, so the text goes on
    have hgo : (g.isEmpty || ((c.skip w.length).skip h.length).peek == '#' ||
        decide ((((c.skip w.length).skip h.length).column : Int) < column)) = false := by
      simp only [hg.ne_nil, Cursor.peek_cons hd, beq_eq_false_iff_ne.mpr hhash, Bool.or_false,
        Bool.false_or, decide_eq_false_iff_not]
      omega
    have hlast : Scan.bareSpaces (((c.skip w.length).skip h.length).skip (ch :: t').length) =
        (gap, broke, d) := by
      rw [← Cursor.skip_add, ← Cursor.skip_add, ← hspaces]
      simp
    have hmore : Scan.bareBody false column fuel g b ((c.skip w.length).skip h.length) =
        (g ++ s, broke, d) := ih (by omega) hd (by omega) hlast
    rw [bareBody_word hw hr (hg.bareRun_append _) hgap, if_neg (by simp [hgo]), hmore]
    simp

end Reading

end RouteBook.Yaml
