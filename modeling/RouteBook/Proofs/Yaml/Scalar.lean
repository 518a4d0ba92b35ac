import RouteBook.Proofs.Yaml.Bare
import RouteBook.Proofs.Yaml.Double
import RouteBook.Proofs.Yaml.Marks
import RouteBook.Proofs.Yaml.Single

/-! Scalars of every style, from the pen to the token. -/
namespace RouteBook.Yaml
open Pen (Writes)

inductive ScalarText (split : Bool) (inner : Nat) : Style → List Char → List Char → Prop
  | bare {c : Char} {s t : List Char} : (analyze (c :: s)).allowBare = true →
      BareText split inner (c :: s) t → ScalarText split inner .bare (c :: s) t
  | single {s t : List Char} : (analyze s).allowSingle = true → SingleText split inner s t →
      ScalarText split inner .single s ('\'' :: (t ++ ['\'']))
  | double {s t : List Char} : DoubleText split inner s t →
      ScalarText split inner .double s ('"' :: (t ++ ['"']))

def Scalar.style (s : Scalar) (simpleKey : Bool) : Style :=
  chooseStyle (analyze s.text.toList) (ScalarTag.ofBare s.text == s.tag) simpleKey

theorem chooseStyle_bare {a : Analysis} {plainOk simpleKey : Bool}
    (h : chooseStyle a plainOk simpleKey = .bare) : plainOk = true ∧ a.allowBare = true := by
  unfold chooseStyle at h
  split_ifs at h with hbare hsingle
  simp only [Bool.and_eq_true] at hbare
  exact ⟨hbare.1.1, hbare.2⟩

theorem chooseStyle_single {a : Analysis} {plainOk simpleKey : Bool}
    (h : chooseStyle a plainOk simpleKey = .single) : a.allowSingle = true := by
  unfold chooseStyle at h
  split_ifs at h with hbare hsingle
  simp only [Bool.and_eq_true] at hsingle
  exact hsingle.1

section Writing
variable {n : Nat} {p : Pen}

/-- How a scalar is written, after a blank where one is needed. -/
theorem writes_scalar (hn : n + 2 < width) (p : Pen) (simpleKey : Bool) {s : Scalar}
    (hs : s.tag ≠ .null) :
    ∃ t, Writes p (writeScalar (some n) simpleKey p s) (p.lead ++ t) ∧
      ScalarText (!simpleKey) (n + 2) (s.style simpleKey) s.text.toList t ∧
      (writeScalar (some n) simpleKey p s).Solid := by
  cases hstyle : s.style simpleKey with
  | bare =>
    obtain ⟨hplain, hallow⟩ := chooseStyle_bare hstyle
    have hwrite : writeScalar (some n) simpleKey p s =
        bare (!simpleKey) (n + 2) p s.text.toList := by
      rw [Scalar.style] at hstyle
      simp only [writeScalar, hstyle]
    cases htext : s.text.toList with
    | nil =>
      have hempty : s.text = "" := by
        rw [← String.toList_inj, htext]
        rfl
      rw [hempty] at hplain
      exact absurd (beq_iff_eq.mp hplain).symm hs
    | cons c cs =>
      rw [htext] at hallow hwrite
      obtain ⟨t, hw, ht, hsolid⟩ := writes_bare (!simpleKey) (n + 2) p hallow
      rw [hwrite]
      exact ⟨t, hw, .bare hallow ht, hsolid⟩
  | single =>
    have hallow := chooseStyle_single hstyle
    have hwrite : writeScalar (some n) simpleKey p s =
        single (!simpleKey) (n + 2) p s.text.toList := by
      rw [Scalar.style] at hstyle
      simp only [writeScalar, hstyle]
    obtain ⟨t, hw, ht, hsolid⟩ := writes_single (!simpleKey) (Nat.le_of_lt hn) p hallow
    rw [hwrite]
    exact ⟨_, hw, .single hallow ht, hsolid⟩
  | double =>
    have hwrite : writeScalar (some n) simpleKey p s =
        double (!simpleKey) (n + 2) p s.text.toList := by
      rw [Scalar.style] at hstyle
      simp only [writeScalar, hstyle]
    obtain ⟨t, hw, ht, hsolid⟩ := writes_double (!simpleKey) hn p s.text.toList
    rw [hwrite]
    exact ⟨_, hw, .double ht, hsolid⟩

theorem ScalarText.legible {split : Bool} {inner : Nat} {style : Style} {s t : List Char}
    (h : ScalarText split inner style s t) (hs : split = false → ∀ c ∈ s, isBreak c = false) :
    ∀ c ∈ t, Legible split c := by
  cases h with
  | bare hallow ht =>
    obtain ⟨-, -, -, -, -, hclear⟩ := bare_facts hallow
    exact ht.legible fun c hc => legible_of_not_special (hclear c hc).1 fun _ => (hclear c hc).2
  | single hallow ht =>
    have hquote : Legible split '\'' := legible_of_ascii (by decide) (by decide) split
    have hinner := ht.legible fun c hc =>
      legible_of_not_special ((tame_of_allowSingle hallow).special c hc) fun hline => hs hline c hc
    simp only [List.forall_mem_cons, List.forall_mem_append]
    exact ⟨hquote, hinner, hquote, by simp⟩
  | double ht =>
    have hquote : Legible split '"' := legible_of_ascii (by decide) (by decide) split
    simp only [List.forall_mem_cons, List.forall_mem_append]
    exact ⟨hquote, ht.legible, hquote, by simp⟩

def lineText : Style → List Char → List Char
  | .bare, s => s
  | .single, s => '\'' :: (s.flatMap piece ++ ['\''])
  | .double, s => '"' :: (s.flatMap doublePiece ++ ['"'])

theorem ScalarText.eq_lineText {inner : Nat} {style : Style} {s t : List Char}
    (h : ScalarText false inner style s t) (hs : ∀ c ∈ s, isBreak c = false) :
    t = lineText style s := by
  cases h with
  | bare _ ht => exact ht.eq_of_line
  | single _ ht => rw [ht.eq_of_line hs, lineText]
  | double ht => rw [ht.eq_of_line, lineText]

end Writing

theorem ScalarText.ne_nil {split : Bool} {inner : Nat} {style : Style} {s t : List Char}
    (h : ScalarText split inner style s t) : t ≠ [] := by
  cases h with
  | bare _ ht =>
    obtain ⟨x, t', rfl, -⟩ := ht.opens
    simp
  | single _ _ => simp
  | double _ => simp

/-- What is read back of a text in a style. -/
def reread (style : Style) (s : List Char) : List Char :=
  if style = .single then readNel false s else s

def scalarToken (style : Style) (s : List Char) : Token :=
  .scalar (String.ofList (reread style s)) (style = .bare)

section Bare
variable {split : Bool} {inner : Nat} {x y : Char} {s t u w tail : List Char}

theorem first_of_bareRun (h : Scan.bareRun false tail = []) :
    firstIs (fun ch => ch == '-' || ch == '.') tail = false := by
  cases tail with
  | nil => rfl
  | cons ch tail =>
    have hne : ch ≠ '-' ∧ ch ≠ '.' := by
      constructor <;> rintro rfl <;> simp [Scan.bareRun, isSpaceOrBreak, isBreak] at h
    simp [firstIs, hne]

theorem BareText.word_first (h : BareText split inner s t) :
    ∃ w u v, Word w ∧ s = w ++ u ∧ t = w ++ v ∧
      (u = [] ∧ v = [] ∨ (∃ u', u = ' ' :: u') ∧ Scan.bareRun false v = []) := by
  cases h with
  | word hw => exact ⟨_, [], [], hw, by simp, by simp, .inl ⟨rfl, rfl⟩⟩
  | @more w g h s t hw hg _ =>
    refine ⟨w, _, _, hw, rfl, rfl, .inr ⟨?_, hg.bareRun_append t⟩⟩
    cases hg with
    | kept m => exact ⟨List.replicate m ' ' ++ s, by simp [List.replicate_succ]⟩
    | folded _ => exact ⟨s, rfl⟩

theorem isMarker_of_append {v : List Char}
    (hv : firstIs (fun ch => ch == '-' || ch == '.') v = false)
    (h : isMarker (w ++ v) = true) : isMarker (w ++ u) = true := by
  match w with
  | a :: b :: c :: w => simpa [isMarker] using h
  | [] | [_] | [_, _] =>
    cases v with
    | nil => simp [isMarker] at h
    | cons ch v =>
      simp only [firstIs, Bool.or_eq_false_iff, beq_eq_false_iff_ne] at hv
      simp [isMarker, hv] at h

theorem BareText.not_marker (h : BareText split inner s t) (hs : isMarker s = false)
    (ht : Scan.bareRun false tail = []) : isMarker (t ++ tail) = false := by
  obtain ⟨w, u, v, -, rfl, rfl, hcase⟩ := h.word_first
  have hv : firstIs (fun ch => ch == '-' || ch == '.') (v ++ tail) = false := by
    rcases hcase with ⟨-, rfl⟩ | ⟨-, hv⟩
    · exact first_of_bareRun ht
    · cases v with
      | nil => exact first_of_bareRun ht
      | cons ch v =>
        have hfirst := first_of_bareRun hv
        exact hfirst
  rw [List.append_assoc]
  by_contra hmarker
  have htrue := isMarker_of_append (u := u) hv (by simpa using hmarker)
  simp [htrue] at hs

theorem BareText.second (h : BareText split inner (x :: y :: s) t) (hy : isSpaceOrBreak y = false) :
    ∃ t', t = x :: y :: t' := by
  obtain ⟨w, u, v, hw, hs, rfl, hcase⟩ := h.word_first
  match w, hw with
  | [], hw => exact absurd rfl hw.ne_nil
  | [a], _ =>
    have hu : u = y :: s := by simpa using (List.cons.inj hs).2.symm
    rcases hcase with ⟨hnil, -⟩ | ⟨⟨u', hblank⟩, -⟩
    · simp [hu] at hnil
    · rw [hu] at hblank
      rw [(List.cons.inj hblank).1] at hy
      exact absurd hy (by decide)
  | a :: b :: w, _ =>
    simp only [List.cons_append, List.cons.injEq] at hs
    exact ⟨w ++ v, by simp [hs.1, hs.2.1]⟩

theorem BareText.head (h : BareText split inner (x :: s) t) : ∃ t', t = x :: t' := by
  obtain ⟨w, u, v, hw, hs, rfl, -⟩ := h.word_first
  obtain ⟨a, w', rfl⟩ := List.exists_cons_of_ne_nil hw.ne_nil
  simp only [List.cons_append, List.cons.injEq] at hs
  exact ⟨w' ++ v, by simp [hs.1]⟩

end Bare

namespace Scan
open Outcome (ok_bind)
variable {split a : Bool} {inner : Nat} {c d : Cursor} {T : List Token} {i : Int} {below : List Int}
  {s t tail : List Char} {x : Char}

/-- A bare text is taken for nothing else. -/
theorem takeToken_of_bare (hr : c.rest = t ++ tail) (hs : (analyze (x :: s)).allowBare = true)
    (ht : BareText split inner (x :: s) t) (htail : bareRun false tail = []) :
    (idle c T i below a).takeToken = (idle c T i below a).bareScalar := by
  obtain ⟨-, hletter, -, hmarker, hstart, -⟩ := bare_facts hs
  have hmark : c.atMarker = false := by
    simp [Cursor.atMarker, hr, ht.not_marker hmarker htail]
  simp only [badStart, Bool.or_eq_false_iff] at hstart
  obtain ⟨hnone, hsign⟩ := hstart
  have hblank : (x == '?' || x == ':' || x == '-') = true → c.blankAt 1 = false := by
    intro hx
    rw [hx, Bool.true_and] at hsign
    cases s with
    | nil => simp [endsWord] at hsign
    | cons y s =>
      obtain ⟨t', rfl⟩ := ht.second hsign
      rw [blankAt_one hr]
      exact hsign
  obtain ⟨t', rfl⟩ := ht.head
  have hpeek : c.peek = x := Cursor.peek_cons hr
  have hspace := space_of_letter hletter
  simp only [List.contains_eq_mem, List.mem_cons, List.not_mem_nil, or_false, not_or,
    decide_eq_false_iff_not] at hnone
  have hbare : (idle c T i below a).startsBare = true := by
    by_cases hx : (x == '?' || x == ':' || x == '-') = true
    · simp [startsBare, hpeek, hblank hx]
      simp at hx
      tauto
    · simp at hx
      simp [startsBare, hpeek, hspace, hnone, hx]
  have hword : ∀ ch, (ch == '?' || ch == ':' || ch == '-') = true →
      ¬ (x = ch ∧ c.blankAt 1 = true) := by
    rintro ch hch ⟨rfl, htrue⟩
    simp [hblank hch] at htrue
  simp [takeToken, hpeek, Cursor.atEnd_cons hr, hmark, hnone, hbare, hword '?' (by decide),
    hword ':' (by decide), hword '-' (by decide)]

theorem ofCodes_codesOf (r : List Char) :
    Token.ofCodes (codesOf r) = .scalar (String.ofList r) false := by
  have hvalid : (codesOf r).all Nat.isValidChar = true := by
    simp only [codesOf, List.all_map, List.all_eq_true, Function.comp_apply, decide_eq_true_eq]
    intro ch _
    exact ch.valid
  have hback : (codesOf r).map Char.ofNat = r := by
    simp [codesOf, Function.comp_def]
  rw [Token.ofCodes, if_pos hvalid, hback]

theorem bareScalar_idle {gap : List Char} {broke : Bool} (hr : c.rest = t ++ tail)
    (ht : BareText split inner s t) (hin : 0 < inner) (hcolumn : i + 1 ≤ inner)
    (hi : i ≤ c.column) (htail : bareRun false tail = [])
    (hspaces : bareSpaces (c.skip t.length) = (gap, broke, d))
    (hstop : (gap.isEmpty || d.peek == '#' || decide ((d.column : Int) < i + 1)) = true) :
    (idle c T i below a).bareScalar =
      .ok (holding d (T ++ [.scalar (String.ofList s) true]) i below broke (pending c T i a)) := by
  have hbody : bareBody false (i + 1) c.rest.length.succ [] false c = (s, broke, d) := by
    have hlen : t.length ≤ c.rest.length.succ := by
      rw [hr, List.length_append]
      omega
    exact bareBody_text ht hin hcolumn htail hstop hlen hr (by omega) hspaces
  have hbare : bare false i c = (String.ofList s, broke, d) := by
    rw [bare, hbody]
  have hhold : bare ((holding c T i below a (pending c T i a)).flowLevel != 0)
      (holding c T i below a (pending c T i a)).indent
      (holding c T i below a (pending c T i a)).cursor = (String.ofList s, broke, d) := hbare
  rw [bareScalar, saveKey_idle, ok_bind, hhold]
  simp [holding, idle, push, pure, Except.pure]

theorem quotedScalar_idle {r : List Char} (h : quoted c = .ok (codesOf r, d)) :
    (idle c T i below a).quotedScalar =
      .ok (holding d (T ++ [.scalar (String.ofList r) false]) i below false (pending c T i a)) := by
  rw [quotedScalar, saveKey_idle, ok_bind]
  change quoted c >>= _ = _
  rw [h, ok_bind]
  simp [holding, idle, push, ofCodes_codesOf, pure, Except.pure]

theorem quoted_single (h : SingleText split inner s t) (hin : 0 < inner)
    (hr : c.rest = '\'' :: (t ++ ['\'']) ++ tail) (ht : firstIs (· == '\'') tail = false) :
    quoted c = .ok (codesOf (readNel false s), c.skip ('\'' :: (t ++ ['\''])).length) := by
  have hnext : c.next.rest = t ++ '\'' :: tail := by
    rw [Cursor.rest_next, hr]
    simp
  have hlen : c.next.rest.length < c.rest.length.succ := by
    rw [Cursor.rest_next, List.length_drop]
    omega
  have hbody := quotes_single h hin ht hnext c.rest.length.succ hlen
  rw [quoted, Cursor.peek_cons hr, List.length_cons, Cursor.skip_succ, List.length_append]
  exact hbody

theorem quoted_double (h : DoubleText split inner s t) (hin : 0 < inner)
    (hr : c.rest = '"' :: (t ++ ['"']) ++ tail) :
    quoted c = .ok (codesOf s, c.skip ('"' :: (t ++ ['"'])).length) := by
  have hnext : c.next.rest = t ++ '"' :: tail := by
    rw [Cursor.rest_next, hr]
    simp
  have hlen : c.next.rest.length < c.rest.length.succ := by
    rw [Cursor.rest_next, List.length_drop]
    omega
  have hbody := quotes_double h hin hnext c.rest.length.succ hlen
  rw [quoted, Cursor.peek_cons hr, List.length_cons, Cursor.skip_succ, List.length_append]
  exact hbody

/-- The state after a scalar: a bare one takes in what follows it as well. -/
theorem takeToken_scalar {style : Style} {gap : List Char} {broke : Bool}
    (h : ScalarText split inner style s t) (hin : 0 < inner) (hr : c.rest = t ++ tail)
    (hcolumn : i + 1 ≤ inner) (hi : i ≤ c.column) (hquote : firstIs (· == '\'') tail = false)
    (htail : bareRun false tail = [])
    (hspaces : bareSpaces (c.skip t.length) = (gap, broke, d))
    (hstop : (gap.isEmpty || d.peek == '#' || decide ((d.column : Int) < i + 1)) = true) :
    (idle c T i below a).takeToken =
      .ok (if style = .bare then
          holding d (T ++ [scalarToken style s]) i below broke (pending c T i a)
        else
          holding (c.skip t.length) (T ++ [scalarToken style s]) i below false
            (pending c T i a)) := by
  cases h with
  | bare hallow ht =>
    rw [takeToken_of_bare hr hallow ht htail,
      bareScalar_idle hr ht hin hcolumn hi htail hspaces hstop]
    rfl
  | single _ ht =>
    have hstep : (idle c T i below a).takeToken = (idle c T i below a).quotedScalar := by
      simp [takeToken, Cursor.peek_cons hr, Cursor.atEnd_cons hr]
    rw [hstep, quotedScalar_idle (quoted_single ht hin hr hquote)]
    rfl
  | double ht =>
    have hstep : (idle c T i below a).takeToken = (idle c T i below a).quotedScalar := by
      simp [takeToken, Cursor.peek_cons hr, Cursor.atEnd_cons hr]
    rw [hstep, quotedScalar_idle (quoted_double ht hin hr)]
    rfl

theorem starts_scalar {style : Style} (h : ScalarText split inner style s t)
    (htail : bareRun false tail = []) : Starts (t ++ tail) := by
  cases h with
  | bare hallow ht =>
    obtain ⟨-, -, -, hmarker, -, -⟩ := bare_facts hallow
    refine ⟨?_, ht.not_marker hmarker htail⟩
    obtain ⟨x, t', rfl, hletter, hhash⟩ := ht.opens
    simp [firstIs, ne_blank_of_letter hletter, inline_of_letter hletter, hhash]
  | single _ _ => exact ⟨rfl, isMarker_of_first rfl⟩
  | double _ => exact ⟨rfl, isMarker_of_first rfl⟩

theorem leads_scalar {style : Style} {r : Scan} {k : Nat} {next : List Char}
    (h : ScalarText split inner style s t)
    (hr : c.rest = t ++ '\n' :: (List.replicate k ' ' ++ next)) (hs : Starts next)
    (hrest : Rests r (idle c T i below a)) (hk : (k : Int) ≤ i) (hi : i < c.column)
    (hcolumn : i + 1 ≤ inner) :
    Leads (Rests · (idle (c.skip (t.length + (k + 1))) (T ++ [scalarToken style s]) i below true))
      r := by
  have hin : 0 < inner := by omega
  have hend := Cursor.rest_skip_append hr
  have hline := Cursor.skip_text_line hr
  have hmark : (c.skip t.length).next.atMarker = false := by
    refine Cursor.atMarker_of_rest ?_
    rw [Cursor.rest_next, hend]
    exact hs.marker_line k
  have hspaces := bareSpaces_line hend hs.gap hmark
  rw [← Cursor.skip_add] at hspaces
  have hstop : ([' '].isEmpty || (c.skip (t.length + (k + 1))).peek == '#' ||
      decide (((c.skip (t.length + (k + 1))).column : Int) < i + 1)) = true := by
    rw [hline.2.1]
    simp
    omega
  have hbreak : bareRun false ('\n' :: (List.replicate k ' ' ++ next)) = [] := by
    simp [bareRun, isSpaceOrBreak, isBreak]
  have htake : (idle c T i below a).takeToken = _ :=
    takeToken_scalar h hin hr hcolumn (Int.le_of_lt hi) rfl hbreak hspaces hstop
  have htokens : ∀ {d b keys}, .streamEnd ∈
      (holding d (T ++ [scalarToken style s]) i below b keys).tokens → .streamEnd ∈ T := by
    simp [holding, scalarToken]
  have hforgotten := forgotten_pending (T := T) (a := a) hi hline.2.2
  have hlen : 0 < t.length := List.length_pos_iff.mpr h.ne_nil
  by_cases hbare : style = .bare
  · rw [if_pos hbare] at htake
    refine .next (hrest.advances (Int.le_of_lt hi) htake ?_ htokens) (.here ?_)
    · change (c.skip (t.length + (k + 1))).rest.length < c.rest.length
      rw [Cursor.rest_skip, List.length_drop]
      simp [hr]
    · exact rests_blanks (k := 0) hline.1 hs hforgotten
  · rw [if_neg hbare] at htake
    refine .next (hrest.advances (Int.le_of_lt hi) htake ?_ htokens) (.here ?_)
    · change (c.skip t.length).rest.length < c.rest.length
      rw [hend, hr, List.length_append]
      omega
    · rw [Cursor.skip_add] at hforgotten ⊢
      exact rests_line hend hs hforgotten

theorem bareSpaces_colon (h : c.rest = ':' :: tail) : bareSpaces c = ([], false, c) := by
  have hspan : c.span (· == ' ') = ([], c) := Cursor.span_run (w := []) h rfl rfl
  unfold bareSpaces
  rw [hspan]
  simp [Cursor.peek_cons h, isNewline, isBreak]

/-- A key and its colon. The colon must not be too far from where the key starts. -/
theorem leads_key {style : Style} {r : Scan} (h : ScalarText split inner style s t)
    (hr : c.rest = t ++ ':' :: tail) (ht : endsWord tail = true)
    (hrest : Rests r (idle c T i below true)) (hi : i ≤ c.column) (hin : 0 < inner)
    (hcolumn : i + 1 ≤ inner) (hline : ∀ x ∈ t, isInline x = true) :
    Leads (Unless (t.length ≤ keyReach) (· = idle (c.skip (t.length + 1))
      (T ++ opening i c.column .blockMappingStart ++ [.key, scalarToken style s, .value]) c.column
      (beneath i c.column below) false)) r := by
  have hend := Cursor.rest_skip_append hr
  have hskip := Cursor.skip_inline hr (List.all_eq_true.mpr hline)
  have hcolon : bareRun false (':' :: tail) = [] := by
    simp [bareRun, ht]
  have htake : (idle c T i below true).takeToken = _ :=
    takeToken_scalar h hin hr hcolumn hi rfl hcolon (bareSpaces_colon hend) rfl
  rw [ite_self] at htake
  have hlen : 0 < t.length := List.length_pos_iff.mpr h.ne_nil
  have hfirst : Advances r (holding (c.skip t.length) (T ++ [scalarToken style s]) i below false
      (pending c T i true)) := by
    refine hrest.advances hi htake ?_ (by simp [holding, scalarToken])
    change (c.skip t.length).rest.length < c.rest.length
    rw [hend, hr, List.length_append]
    omega
  have hcol : i ≤ (c.skip t.length).column := by
    simp only [hskip]
    omega
  refine .next hfirst ?_
  -- beyond its reach the key is forgotten, and a colon without one may not stand here
  by_cases hfit : t.length ≤ keyReach
  · have hnear : (c.skip t.length).index - c.index ≤ keyReach := by simpa [hskip] using hfit
    have hstep : (holding (c.skip t.length) (T ++ [scalarToken style s]) i below false
        (pending c T i true)).step = _ := step_colon hend ht (by simp [hskip]) hnear hcol rfl hi
    have hsecond : Advances _ _ := ⟨rfl, hstep, ?_, ?_⟩
    · refine .next hsecond (.here ?_)
      rw [Unless, decide_eq_true hfit]
      rw [Cursor.skip_add]
      rfl
    · change (c.skip t.length).next.rest.length < (c.skip t.length).rest.length
      rw [Cursor.rest_next, hend]
      simp
    · simp [holding, idle, scalarToken, opening]
  · have hfar : keyReach < (c.skip t.length).index - c.index := by simpa [hskip] using hfit
    have hstep : ∃ e, (holding (c.skip t.length) (T ++ [scalarToken style s]) i below false
        (pending c T i true)).step = .error e := step_colon_far hend ht hfar hcol
    refine .here ?_
    rw [Unless, decide_eq_false hfit]
    exact ⟨rfl, hstep⟩

end Scan

end RouteBook.Yaml
