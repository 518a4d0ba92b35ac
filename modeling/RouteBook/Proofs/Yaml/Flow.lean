import RouteBook.Proofs.Yaml.Double
import RouteBook.Proofs.Yaml.Marks
import RouteBook.Proofs.Yaml.Numeral

/-! Scanning collections in brackets, with blanks and line feeds anywhere between their parts. -/
namespace RouteBook.Yaml.Scan
open Outcome (ok_bind)
variable {s r : Scan} {c : Cursor} {T : List Token} {level fuel : Nat} {g rest : List Char}
  {ch : Char}

def isFlat (c : Char) : Bool := c == ' ' || c == '\n'

/-- A scanner with some tokens at some level of brackets, before the rest of the text. No key that
it remembers has to be one. -/
structure At (s : Scan) (T : List Token) (level : Nat) (rest : List Char) : Prop where
  active : s.done = false
  tokens : s.tokens = T.toArray
  level : s.flowLevel = level
  rest : s.cursor.rest = rest
  indent : s.indent = -1
  indents : s.indents = []
  optional : ∀ key ∈ s.keys, key.2.required = false

def isTokenStart (c : Char) : Bool := c != ' ' && c != '#' && !isNewline c

def nearKeys (c : Cursor) (keys : List (Nat × KeyStart)) : List (Nat × KeyStart) :=
  keys.filter fun key => !(key.2.line != c.line || decide (keyReach < c.index - key.2.index))

theorem flat_cases (h : isFlat ch = true) : ch = ' ' ∨ ch = '\n' := by
  simpa [isFlat] using h

theorem exists_blanks (hg : g.all isFlat = true) :
    ∃ k g', g = List.replicate k ' ' ++ g' ∧ (g' = [] ∨ ∃ g'', g' = '\n' :: g'' ∧
      g''.all isFlat = true) := by
  induction g with
  | nil => exact ⟨0, [], rfl, .inl rfl⟩
  | cons x g ih =>
    rw [List.all_cons, Bool.and_eq_true] at hg
    rcases flat_cases hg.1 with rfl | rfl
    · obtain ⟨k, g', rfl, hrest⟩ := ih hg.2
      exact ⟨k + 1, g', rfl, hrest⟩
    · exact ⟨0, '\n' :: g, rfl, .inr ⟨g, rfl, hg.2⟩⟩

theorem toNextToken_flat (hg : g.all isFlat = true) (h : s.cursor.rest = g ++ rest)
    (hrest : firstIs (fun ch => !isTokenStart ch) rest = false) (hf : g.length < fuel) :
    ∃ a, (s.allowKey = true → a = true) ∧
      toNextToken fuel s = { s with cursor := s.cursor.skip g.length, allowKey := a } := by
  induction fuel generalizing s g with
  | zero => exact absurd hf (by omega)
  | succ fuel ih =>
    obtain ⟨k, g', rfl, hg'⟩ := exists_blanks hg
    have hstop : firstIs (· == ' ') (g' ++ rest) = false := by
      rcases hg' with rfl | ⟨g'', rfl, -⟩
      · cases rest with
        | nil => rfl
        | cons x rest =>
          simp only [firstIs, isTokenStart, Bool.not_eq_false', Bool.and_eq_true,
            bne_iff_ne] at hrest
          simp [firstIs, hrest.1.1]
      · rfl
    rw [List.append_assoc] at h
    have hskip := Cursor.skipSpaces_blanks h hstop
    have hafter : (s.cursor.skip k).rest = g' ++ rest := by simp [Cursor.rest_skip, h]
    rcases hg' with rfl | ⟨g'', rfl, hg''⟩
    · have hcomment : (s.cursor.skip k).skipComment = s.cursor.skip k ∧
          (!(s.cursor.skip k).atEnd && isNewline (s.cursor.skip k).peek) = false := by
        rw [List.nil_append] at hafter
        cases rest with
        | nil => simp [Cursor.skipComment, Cursor.atEnd, Cursor.peek, hafter]
        | cons x rest =>
          simp only [firstIs, isTokenStart, Bool.not_eq_false', Bool.and_eq_true, bne_iff_ne,
            Bool.not_eq_true'] at hrest
          simp [Cursor.skipComment, Cursor.peek_cons hafter, hrest]
      refine ⟨s.allowKey, id, ?_⟩
      simp [toNextToken, hskip, hcomment]
    · have hfeed : (s.cursor.skip k).rest = '\n' :: (g'' ++ rest) := hafter
      have hcomment : (s.cursor.skip k).skipComment = s.cursor.skip k := by
        simp [Cursor.skipComment, Cursor.peek_cons hfeed]
      have hnext : (s.cursor.skip k).next.rest = g'' ++ rest := by
        rw [Cursor.rest_next, hfeed]
        rfl
      have hstep : toNextToken (fuel + 1) s = toNextToken fuel { s with
          cursor := (s.cursor.skip k).next, allowKey := s.allowKey || s.flowLevel == 0 } := by
        simp [toNextToken, hskip, hcomment, Cursor.atEnd_cons hfeed, Cursor.peek_cons hfeed,
          isNewline, isBreak, Cursor.lineBreak_lineFeed hfeed]
      simp only [List.length_append, List.length_replicate, List.length_cons] at hf
      obtain ⟨a, ha, hto⟩ := ih (s := { s with
        cursor := (s.cursor.skip k).next, allowKey := s.allowKey || s.flowLevel == 0 })
        hg'' hnext (by omega)
      refine ⟨a, fun hallow => ha (by simp [hallow]), ?_⟩
      rw [hstep, hto]
      simp only [List.length_append, List.length_replicate, List.length_cons]
      rw [Cursor.skip_add, Cursor.skip_succ]

theorem dropStale_optional (h : ∀ key ∈ s.keys, key.2.required = false) :
    s.dropStale = .ok { s with keys := nearKeys s.cursor s.keys } :=
  dropStale_eq_filter fun key hkey hr => absurd hr (by simp [h key hkey])

theorem dropKey_optional (h : ∀ key ∈ s.keys, key.2.required = false) :
    s.dropKey = .ok { s with keys := s.keys.filter fun key => key.1 != s.flowLevel } :=
  dropKey_eq_filter fun key hkey _ => h key hkey

theorem At.ready (h : At s T level (g ++ rest)) (hg : g.all isFlat = true)
    (hrest : firstIs (fun ch => !isTokenStart ch) rest = false) :
    ∃ r, s.ready = .ok r ∧ At r T level rest ∧ (s.allowKey = true → r.allowKey = true) ∧
      r.cursor = s.cursor.skip g.length ∧ r.keys = nearKeys r.cursor s.keys := by
  have hfuel : g.length < s.cursor.rest.length.succ := by
    rw [h.rest, List.length_append]
    omega
  obtain ⟨a, ha, hto⟩ := toNextToken_flat hg h.rest hrest hfuel
  have hopt : ∀ key ∈ nearKeys (s.cursor.skip g.length) s.keys, key.2.required = false :=
    fun key hkey => h.optional key (List.mem_of_mem_filter hkey)
  have hunwind : ∀ t : Scan, t.indent = -1 → t.indents = [] → t.unwind t.cursor.column = t := by
    intro t hi hb
    by_cases hl : t.flowLevel = 0
    · exact unwind_of_le hl (by rw [hi]; omega)
    · simp [unwind, hl]
  have hdrop := dropStale_optional
    (s := { s with cursor := s.cursor.skip g.length, allowKey := a }) h.optional
  refine ⟨{ s with
    cursor := s.cursor.skip g.length
    allowKey := a
    keys := nearKeys (s.cursor.skip g.length) s.keys }, ?_,
    ⟨h.active, h.tokens, h.level, ?_, h.indent, h.indents, hopt⟩, ha, rfl, rfl⟩
  · rw [Scan.ready, hto, hdrop]
    exact congrArg Except.ok (hunwind _ h.indent h.indents)
  · exact Cursor.rest_skip_append h.rest

theorem At.saveKey (h : At s T level rest) :
    ∃ r, s.saveKey = .ok r ∧ At r T level rest ∧ r.cursor = s.cursor ∧
      (s.allowKey = true → ∃ keys, r.keys =
        (level, ⟨T.length, false, s.cursor.index, s.cursor.line, s.cursor.column⟩) :: keys) := by
  have hrequired : (s.flowLevel == 0 && s.indent == (s.cursor.column : Int)) = false := by
    have hne : s.indent ≠ (s.cursor.column : Int) := by
      rw [h.indent]
      omega
    simp [hne]
  unfold Scan.saveKey
  cases ha : s.allowKey with
  | false => exact ⟨s, rfl, h, rfl, by simp⟩
  | true =>
    have hsize : s.tokens.size = T.length := by simp [h.tokens]
    rw [if_pos rfl, dropKey_optional h.optional, hrequired]
    refine ⟨_, rfl, ⟨h.active, h.tokens, h.level, h.rest, h.indent, h.indents, ?_⟩, rfl,
      fun _ => ?_⟩
    · intro key hkey
      rcases List.mem_cons.mp hkey with rfl | hkey
      · rfl
      · exact h.optional key (List.mem_of_mem_filter hkey)
    · exact ⟨s.keys.filter fun key => key.1 != s.flowLevel, by simp only [hsize, h.level]⟩

theorem At.dropKey (h : At s T level rest) :
    ∃ r, s.dropKey = .ok r ∧ At r T level rest ∧ r.cursor = s.cursor := by
  refine ⟨_, dropKey_optional h.optional, ⟨h.active, h.tokens, h.level, h.rest, h.indent, h.indents,
    fun key hkey => h.optional key (List.mem_of_mem_filter hkey)⟩, rfl⟩

theorem At.take (h : At s T level (ch :: rest)) (t : Token) (level' : Nat) (a : Bool) :
    At ({ s with flowLevel := level', allowKey := a }.take 1 t) (T ++ [t]) level' rest := by
  refine ⟨h.active, ?_, rfl, ?_, h.indent, h.indents, h.optional⟩
  · simp [Scan.take, push, h.tokens]
  · change (s.cursor.skip 1).rest = rest
    simp [Cursor.rest_skip, h.rest]

theorem At.flowOpen (h : At s T level (ch :: rest)) (t : Token) :
    ∃ r, s.flowOpen t = .ok r ∧ At r (T ++ [t]) (level + 1) rest ∧ r.allowKey = true := by
  obtain ⟨r, hsave, hr, -, -⟩ := h.saveKey
  refine ⟨_, ?_, hr.take t (level + 1) true, rfl⟩
  rw [Scan.flowOpen, hsave, ok_bind, hr.level]
  rfl

theorem At.flowClose (h : At s T (level + 1) (ch :: rest)) (t : Token) :
    ∃ r, s.flowClose t = .ok r ∧ At r (T ++ [t]) level rest := by
  obtain ⟨r, hdrop, hr, -⟩ := h.dropKey
  refine ⟨_, ?_, hr.take t level false⟩
  rw [Scan.flowClose, hdrop, ok_bind, hr.level]
  rfl

theorem At.flowEntry (h : At s T level (ch :: rest)) :
    ∃ r, s.flowEntry = .ok r ∧ At r (T ++ [.flowEntry]) level rest ∧ r.allowKey = true := by
  obtain ⟨r, hdrop, hr, -⟩ := h.dropKey
  refine ⟨_, ?_, hr.take .flowEntry level true, rfl⟩
  rw [Scan.flowEntry, hdrop, ok_bind, ← hr.level]
  rfl

theorem At.advances {T' : List Token} {level' : Nat} {rest' : List Char} {Q : Scan → Prop}
    (h : At s T level (g ++ ch :: rest)) (hg : g.all isFlat = true) (hch : isTokenStart ch = true)
    (hr : ∀ r, At r T level (ch :: rest) → (s.allowKey = true → r.allowKey = true) →
      r.cursor = s.cursor.skip g.length → r.keys = nearKeys r.cursor s.keys →
      ∃ s', r.takeToken = .ok s' ∧ At s' T' level' rest' ∧ Q s')
    (hrest : rest'.length ≤ rest.length) (hT : .streamEnd ∈ T' → .streamEnd ∈ T) :
    ∃ s', Advances s s' ∧ At s' T' level' rest' ∧ Q s' := by
  obtain ⟨r, hready, hat, hallow, hcursor, hkeys⟩ := h.ready hg (by simpa [firstIs] using hch)
  obtain ⟨s', htake, hat', hq⟩ := hr r hat hallow hcursor hkeys
  refine ⟨s', ⟨h.active, ?_, ?_, ?_⟩, hat', hq⟩
  · rw [step, hready, ok_bind, htake]
  · rw [hat'.rest, h.rest]
    simp only [List.length_append, List.length_cons]
    omega
  · simpa [hat'.tokens, h.tokens] using hT

theorem At.open_bracket {x y : Char} {t u : Token} (hb : Brackets x y t u)
    (h : At s T level (g ++ x :: rest)) (hg : g.all isFlat = true) :
    ∃ s', Advances s s' ∧ At s' (T ++ [t]) (level + 1) rest ∧ s'.allowKey = true := by
  refine h.advances hg (by cases hb <;> decide) (fun r hat _ _ _ => ?_) le_rfl
    (by cases hb <;> simp)
  obtain ⟨s', hopen, hat', ha⟩ := hat.flowOpen t
  refine ⟨s', ?_, hat', ha⟩
  rw [← hopen]
  cases hb <;> simp [takeToken, Cursor.peek_cons hat.rest, Cursor.atEnd_cons hat.rest]

theorem At.close_bracket {x y : Char} {t u : Token} (hb : Brackets x y t u)
    (h : At s T (level + 1) (g ++ y :: rest)) (hg : g.all isFlat = true) :
    ∃ s', Advances s s' ∧ At s' (T ++ [u]) level rest := by
  obtain ⟨s', hadv, hat, -⟩ := h.advances (Q := fun _ => True) hg (by cases hb <;> decide)
    (fun r hat _ _ _ => by
      obtain ⟨s', hclose, hat'⟩ := hat.flowClose u
      refine ⟨s', ?_, hat', trivial⟩
      rw [← hclose]
      cases hb <;> simp [takeToken, Cursor.peek_cons hat.rest, Cursor.atEnd_cons hat.rest])
    le_rfl (by cases hb <;> simp)
  exact ⟨s', hadv, hat⟩

theorem At.comma (h : At s T level (g ++ ',' :: rest)) (hg : g.all isFlat = true) :
    ∃ s', Advances s s' ∧ At s' (T ++ [.flowEntry]) level rest ∧ s'.allowKey = true := by
  refine h.advances hg (by decide) (fun r hat _ _ _ => ?_) le_rfl (by simp)
  obtain ⟨s', hentry, hat', ha⟩ := hat.flowEntry
  refine ⟨s', ?_, hat', ha⟩
  rw [← hentry]
  simp [takeToken, Cursor.peek_cons hat.rest, Cursor.atEnd_cons hat.rest]

section Quoted
open Json (Spelling codePoints quotedText)
variable {codes : List Nat} {d : Cursor} {k : Nat} {t tail : List Char}

theorem Quotes.blanks (h : c.rest = List.replicate k ' ' ++ ch :: t) (hch : isGap ch = false)
    (hq : Quotes true (c.skip k) codes d) :
    Quotes true c (codesOf (List.replicate k ' ') ++ codes) d := by
  cases k with
  | zero => exact hq
  | succ k => exact Quotes.spaces (by rw [h]; rfl) (by decide) (quotedSpaces_blanks h hch) hq

theorem hexNumber_four_lt (a b x y : Char) : Text.hexNumber [a, b, x, y] < 65536 := by
  have hdigit (z : Char) : (Text.hexValue? z).getD 0 < 16 := by
    unfold Text.hexValue?
    dsimp only
    split_ifs <;> simp <;> omega
  have ha := hdigit a
  have hb := hdigit b
  have hx := hdigit x
  have hy := hdigit y
  simp only [Text.hexNumber, List.foldl_cons, List.foldl_nil]
  omega

theorem escape_code {a b x y : Char} (hhex : [a, b, x, y].all Text.isHex = true)
    (h : c.rest = '\\' :: 'u' :: a :: b :: x :: y :: t) :
    escape c.next = .ok ([Text.hexNumber [a, b, x, y]], c.skip 6) := by
  have hrest : c.next.rest = 'u' :: a :: b :: x :: y :: t := by
    rw [Cursor.rest_next, h]
    rfl
  have hpoint : Literal.codePoint (Text.hexNumber [a, b, x, y]) =
      .ok (Text.hexNumber [a, b, x, y]) := by
    have hlt := hexNumber_four_lt a b x y
    exact if_pos (by omega)
  have hletter : letterEscape? 'u' = none := rfl
  have hwidth : escapeWidth? 'u' = some 4 := rfl
  simp only [escape, Cursor.atEnd_cons hrest, Cursor.peek_cons hrest, hletter, hwidth, hrest,
    Bool.false_eq_true, if_false, List.drop_succ_cons, List.drop_zero, List.take_succ_cons,
    List.take_zero, List.length_cons, List.length_nil]
  rw [if_pos ⟨trivial, hhex⟩, hpoint]
  rfl

/-- The letters of escapes stand for the same characters. -/
theorem letterEscape?_json {e : Char} (h : Json.letterEscape? e = some ch) :
    letterEscape? e = some ch := by
  unfold Json.letterEscape? at h
  split at h
  all_goals first
    | exact h
    | cases h

/-- A spelling whose character YAML can read, and which ends no line. -/
def isPlainSpelling : Spelling → Bool
  | .raw c _ => isReadable c && !isNewline c
  | _ => true

theorem quotes_spelling {x : Spelling} (hx : isPlainSpelling x = true)
    (hb : ∀ h, x ≠ .raw ' ' h) (h : c.rest = x.text ++ t)
    (hq : Quotes true (c.skip x.text.length) codes d) :
    Quotes true c (x.codePoint :: codes) d ∧ firstIs isGap (x.text ++ t) = false := by
  cases x with
  | raw ch hraw =>
    have hgap : isGap ch = false := by
      simp only [isPlainSpelling, Bool.and_eq_true, Bool.not_eq_true'] at hx
      have hblank : ch ≠ ' ' := by
        rintro rfl
        exact hb hraw rfl
      have htab : ch ≠ '\t' := by
        rintro rfl
        exact absurd hraw.1 (by decide)
      simp [isGap, hblank, htab, hx.2]
    exact ⟨Quotes.char h hgap (.inr rfl) (.inl hraw.2) hq, hgap⟩
  | letter e ch he =>
    exact ⟨Quotes.escape (n := 1) h (escape_short (letterEscape?_json he) h) hq, rfl⟩
  | code a b x y hhex =>
    exact ⟨Quotes.escape (n := 5) h (escape_code hhex h) hq, rfl⟩

theorem quotes_spellings {s : List Spelling} (hs : s.all isPlainSpelling = true)
    (h : c.rest = List.replicate k ' ' ++ (s.flatMap Spelling.text ++ '"' :: tail)) :
    Quotes true c (codesOf (List.replicate k ' ') ++ codePoints s)
      (c.skip (k + ((s.flatMap Spelling.text).length + 1))) := by
  -- blanks are read together, so those before the next spelling are kept for it
  induction s generalizing c k with
  | nil =>
    have hrest : (c.skip k).rest = '"' :: tail := by simp [Cursor.rest_skip, h]
    rw [Cursor.skip_add]
    exact Quotes.blanks h (by decide) (Quotes.close_double hrest)
  | cons x s ih =>
    rw [List.all_cons, Bool.and_eq_true] at hs
    obtain ⟨hx, hs⟩ := hs
    rw [List.flatMap_cons, List.append_assoc] at h
    by_cases hb : ∃ hraw, x = .raw ' ' hraw
    · obtain ⟨hraw, rfl⟩ := hb
      have hk := ih (c := c) (k := k + 1) hs (by simp [h, List.replicate_succ', Spelling.text])
      have hcodes : codesOf (List.replicate k ' ') ++ codePoints (.raw ' ' hraw :: s) =
          codesOf (List.replicate (k + 1) ' ') ++ codePoints s := by
        simp [List.replicate_succ', codesOf, codePoints, Spelling.codePoint]
      have hplace : k + (((Spelling.raw ' ' hraw :: s).flatMap Spelling.text).length + 1) =
          k + 1 + ((s.flatMap Spelling.text).length + 1) := by
        simp only [List.flatMap_cons, Spelling.text, List.length_append, List.length_singleton]
        omega
      rw [hcodes, hplace]
      exact hk
    · have hrest : (c.skip k).rest = x.text ++ (s.flatMap Spelling.text ++ '"' :: tail) := by
        simp [Cursor.rest_skip, h]
      have hmore := ih (c := (c.skip k).skip x.text.length) (k := 0) hs
        (Cursor.rest_skip_append hrest)
      obtain ⟨hone, hgap⟩ := quotes_spelling hx (fun hraw hr => hb ⟨hraw, hr⟩) hrest hmore
      obtain ⟨ch, u, hu⟩ :
          ∃ ch u, x.text ++ (s.flatMap Spelling.text ++ '"' :: tail) = ch :: u := by
        cases x <;> exact ⟨_, _, rfl⟩
      rw [hu] at h hgap
      have hplace : (c.skip k).skip (x.text.length + (0 + ((s.flatMap Spelling.text).length + 1))) =
          c.skip (k + (((x :: s).flatMap Spelling.text).length + 1)) := by
        rw [← Cursor.skip_add, List.flatMap_cons, List.length_append]
        congr 1
        omega
      rw [← Cursor.skip_add, hplace] at hone
      exact Quotes.blanks h hgap hone

theorem quoted_quotedText {s : List Spelling} (hs : s.all isPlainSpelling = true)
    (h : c.rest = quotedText s ++ tail) :
    quoted c = .ok (codePoints s, c.skip (quotedText s).length) := by
  have hcons : c.rest = '"' :: (s.flatMap Spelling.text ++ '"' :: tail) := by
    simpa [quotedText] using h
  have hnext : c.next.rest = s.flatMap Spelling.text ++ '"' :: tail := by
    rw [Cursor.rest_next, hcons]
    rfl
  have hquotes := quotes_spellings (c := c.next) (k := 0) hs hnext
  have hbody := hquotes c.rest.length.succ (by rw [hnext, hcons, List.length_cons]; omega)
  rw [quoted, Cursor.peek_cons hcons]
  change quotedBody true _ _ = _
  rw [hbody]
  have hplace : (quotedText s).length = 0 + ((s.flatMap Spelling.text).length + 1) + 1 := by
    simp only [quotedText, List.length_cons, List.length_append, List.length_nil]
    omega
  rw [hplace, Cursor.skip_succ]
  rfl

theorem ofCodes_ne_streamEnd (codes : List Nat) : Token.ofCodes codes ≠ .streamEnd := by
  unfold Token.ofCodes
  split <;> simp

theorem At.text {q : List Spelling} (h : At s T level (g ++ (quotedText q ++ tail)))
    (hg : g.all isFlat = true) (hq : q.all isPlainSpelling = true) :
    ∃ s', Advances s s' ∧ At s' (T ++ [Token.ofCodes (codePoints q)]) level tail ∧
      (s.allowKey = true → ∃ (c : Cursor) (keys : List (Nat × KeyStart)),
        c.rest = quotedText q ++ tail ∧ s'.cursor = c.skip (quotedText q).length ∧
        s'.keys = (level, ⟨T.length, false, c.index, c.line, c.column⟩) :: keys) := by
  have hcons : At s T level (g ++ '"' :: (q.flatMap Spelling.text ++ ['"'] ++ tail)) := h
  refine hcons.advances hg (by decide) (fun r hat hallow _ _ => ?_) ?_ ?_
  · obtain ⟨r', hsave, hat', hcursor, hkeys⟩ := hat.saveKey
    have hrest : r'.cursor.rest = quotedText q ++ tail := hat'.rest
    have hquoted := quoted_quotedText hq hrest
    have hstep : r.takeToken = r.quotedScalar := by
      simp [takeToken, Cursor.peek_cons hat.rest, Cursor.atEnd_cons hat.rest]
    refine ⟨{ r' with cursor := r'.cursor.skip (quotedText q).length, allowKey := false }.push
      (.ofCodes (codePoints q)), ?_, ?_, ?_⟩
    · rw [hstep, quotedScalar, hsave, ok_bind, hquoted]
      rfl
    · refine ⟨hat'.active, ?_, hat'.level, ?_, hat'.indent, hat'.indents, hat'.optional⟩
      · simp [push, hat'.tokens]
      · exact Cursor.rest_skip_append hrest
    · intro ha
      obtain ⟨keys, hk⟩ := hkeys (hallow ha)
      exact ⟨r.cursor, keys, hat.rest, by rw [← hcursor]; rfl, hk⟩
  · simp only [List.length_append]
    omega
  · intro hend
    simpa [(ofCodes_ne_streamEnd _).symm] using hend

end Quoted

theorem skip_within_line {w tail : List Char} (h : c.rest = w ++ tail)
    (hw : w.all (fun ch => !isNewline ch) = true) :
    (c.skip w.length).line = c.line ∧ (c.skip w.length).index = c.index + w.length := by
  induction w generalizing c with
  | nil => exact ⟨rfl, rfl⟩
  | cons x w ih =>
    rw [List.all_cons, Bool.and_eq_true, Bool.not_eq_true'] at hw
    have hnext : c.next.line = c.line ∧ c.next.index = c.index + 1 := by
      have hcr : (x == '\r') = false := by
        simp only [isNewline, Bool.or_eq_false_iff] at hw
        exact hw.1.1
      simp [Cursor.next, h, isBreak_of_not_newline hw.1, hcr]
    have hrest : c.next.rest = w ++ tail := by
      rw [Cursor.rest_next, h]
      rfl
    obtain ⟨hline, hindex⟩ := ih hrest hw.2
    rw [List.length_cons, Cursor.skip_succ, hline, hindex, hnext.1, hnext.2]
    exact ⟨rfl, by omega⟩

theorem At.colon {t : Token} {key : KeyStart} {keys : List (Nat × KeyStart)}
    (h : At s (T ++ [t]) (level + 1) (g ++ ':' :: rest)) (hg : g.all (· == ' ') = true)
    (hk : s.keys = (level + 1, key) :: keys) (hplace : key.place = T.length)
    (hline : key.line = s.cursor.line)
    (hreach : s.cursor.index + g.length - key.index ≤ keyReach) :
    ∃ s', Advances s s' ∧ At s' (T ++ [.key, t, .value]) (level + 1) rest := by
  have hflat : g.all isFlat = true := by
    rw [List.all_eq_true] at hg ⊢
    intro x hx
    simp [isFlat, beq_iff_eq.mp (hg x hx)]
  have hblank : g.all (fun ch => !isNewline ch) = true := by
    rw [List.all_eq_true] at hg ⊢
    intro x hx
    rw [beq_iff_eq.mp (hg x hx)]
    decide
  obtain ⟨hl, hi⟩ := skip_within_line h.rest hblank
  have hkey : (T ++ [t]).insertIdx T.length .key = T ++ [.key, t] := insertIdx_length T _ _ _
  have hstep : ∃ s', Advances s s' ∧ At s' (T ++ [.key, t, .value]) (level + 1) rest ∧ True := by
    refine h.advances hflat (by decide) (fun r hat _ hcursor hkeys => ?_) le_rfl (by simp)
    have hnear : r.keys = (level + 1, key) :: nearKeys r.cursor keys := by
      rw [hkeys, hk, nearKeys, nearKeys, List.filter_cons_of_pos]
      simp [hcursor, hl, hi, hline]
      omega
    have hfind : (r.keys.find? fun k => k.1 == r.flowLevel) = some (level + 1, key) := by
      rw [hnear, List.find?_cons_of_pos (by simp [hat.level])]
    have htake : r.takeToken = r.value := by
      simp [takeToken, Cursor.peek_cons hat.rest, Cursor.atEnd_cons hat.rest, hat.level]
    refine ⟨{ r with
      keys := r.keys.filter fun k => k.1 != r.flowLevel
      tokens := r.tokens.insertIdxIfInBounds key.place .key
      allowKey := false }.take 1 .value, ?_, ?_, trivial⟩
    · rw [htake, value, hfind]
      simp [hat.level]
    · refine ⟨hat.active, ?_, hat.level, ?_, hat.indent, hat.indents,
        fun k hk => hat.optional k (List.mem_of_mem_filter hk)⟩
      · simp [Scan.take, push, hat.tokens, hplace, hkey]
      · change (r.cursor.skip 1).rest = rest
        simp [Cursor.rest_skip, hat.rest]
  obtain ⟨s', hadv, hat, -⟩ := hstep
  exact ⟨s', hadv, hat⟩

section Bare
variable {w tail : List Char}

def isWordChar (c : Char) : Bool :=
  !isSpaceOrBreak c && !isFlowMark c && !(['?', ':', '#'].contains c)

/-- A word that is no mark: a letter or digit comes first, or after a minus sign. -/
def startsWord : List Char → Bool
  | '-' :: c :: _ => c.isAlphanum
  | c :: _ => c.isAlphanum
  | [] => false

def isEnding (c : Char) : Bool := [',', ']', '\x7d'].contains c

theorem ending_cases (h : isEnding ch = true) : ch = ',' ∨ ch = ']' ∨ ch = '\x7d' := by
  simpa [isEnding] using h

theorem first_flat (hg : g.all isFlat = true) (hch : isEnding ch = true) (p : Char → Bool)
    (hp : (' ' :: '\n' :: [',', ']', '\x7d']).all (fun c => !p c) = true) :
    firstIs p (g ++ ch :: rest) = false := by
  simp only [List.all_cons, List.all_nil, Bool.and_eq_true, Bool.not_eq_true', and_true] at hp
  cases g with
  | nil => rcases ending_cases hch with rfl | rfl | rfl <;> simp [firstIs, hp]
  | cons x g =>
    rw [List.all_cons, Bool.and_eq_true] at hg
    rcases flat_cases hg.1 with rfl | rfl <;> simp [firstIs, hp]

theorem atMarker_flat (hg : g.all isFlat = true) (hch : isEnding ch = true)
    (h : c.rest = g ++ ch :: rest) : c.atMarker = false := by
  refine Cursor.atMarker_of_rest (isMarker_of_first ?_)
  rw [h]
  exact first_flat hg hch _ (by decide)

theorem breaks_flat (hg : g.all isFlat = true) (hch : isEnding ch = true)
    (h : c.rest = g ++ ch :: rest) (hf : g.length < fuel) :
    ∃ bs, bareSpaces.breaks fuel c = (some bs, c.skip g.length) := by
  induction g generalizing c fuel with
  | nil =>
    obtain ⟨fuel, rfl⟩ : ∃ f, fuel = f + 1 := ⟨fuel - 1, by omega⟩
    refine ⟨[], ?_⟩
    have hpeek := Cursor.peek_cons h
    rcases ending_cases hch with rfl | rfl | rfl <;>
      simp [bareSpaces.breaks, hpeek, isNewline, isBreak, Cursor.skip]
  | cons x g ih =>
    obtain ⟨fuel, rfl⟩ : ∃ f, fuel = f + 1 := ⟨fuel - 1, by omega⟩
    rw [List.all_cons, Bool.and_eq_true] at hg
    have hnext : c.next.rest = g ++ ch :: rest := by
      rw [Cursor.rest_next, h]
      rfl
    obtain ⟨bs, hbs⟩ := ih hg.2 hnext (Nat.lt_of_succ_lt_succ hf)
    rcases flat_cases hg.1 with rfl | rfl
    · exact ⟨bs, by simp [bareSpaces.breaks, Cursor.peek_cons h, hbs, Cursor.skip_succ]⟩
    · have hfeed : c.rest = '\n' :: (g ++ ch :: rest) := h
      refine ⟨'\n' :: bs, ?_⟩
      simp [bareSpaces.breaks, Cursor.peek_cons hfeed, Cursor.atEnd_cons hfeed, isNewline, isBreak,
        Cursor.lineBreak_lineFeed hfeed, atMarker_flat hg.2 hch hnext, hbs, Cursor.skip_succ]

theorem bareSpaces_flat (hg : g.all isFlat = true) (hch : isEnding ch = true)
    (h : c.rest = g ++ ch :: rest) :
    ∃ gap broke, bareSpaces c = (gap, broke, c.skip g.length) := by
  obtain ⟨k, g', rfl, hg'⟩ := exists_blanks hg
  rw [List.append_assoc] at h
  have hstop : firstIs (· == ' ') (g' ++ ch :: rest) = false := by
    rcases hg' with rfl | ⟨g'', rfl, -⟩
    · rcases ending_cases hch with rfl | rfl | rfl <;> rfl
    · rfl
  have hspan := Cursor.span_run (p := (· == ' ')) h (by simp) hstop
  have hafter := Cursor.rest_skip_append h
  rw [List.length_replicate] at hspan hafter
  unfold bareSpaces
  rw [hspan]
  rcases hg' with rfl | ⟨g'', rfl, hg''⟩
  · refine ⟨List.replicate k ' ', false, ?_⟩
    have hnewline : isNewline (c.skip k).peek = false := by
      rw [Cursor.peek_cons hafter]
      rcases ending_cases hch with rfl | rfl | rfl <;> decide
    simp [hnewline]
  · have hfeed : (c.skip k).rest = '\n' :: (g'' ++ ch :: rest) := hafter
    have hnext : (c.skip k).next.rest = g'' ++ ch :: rest := by
      rw [Cursor.rest_next, hfeed]
      rfl
    have hfuel : g''.length < (c.skip k).next.rest.length.succ := by
      rw [hnext, List.length_append]
      omega
    obtain ⟨bs, hbs⟩ := breaks_flat hg'' hch hnext hfuel
    have hplace : (c.skip k).next.skip g''.length =
        c.skip (List.replicate k ' ' ++ '\n' :: g'').length := by
      rw [List.length_append, List.length_replicate, Cursor.skip_add, List.length_cons,
        Cursor.skip_succ]
    refine ⟨(if bs.isEmpty then [' '] else []) ++ bs, true, ?_⟩
    simp [Cursor.peek_cons hfeed, Cursor.atEnd_cons hfeed, isNewline, isBreak,
      Cursor.lineBreak_lineFeed hfeed, atMarker_flat hg'' hch hnext, hbs, hplace]

theorem bareRun_word (hw : w.all isWordChar = true) (hg : g.all isFlat = true)
    (hch : isEnding ch = true) : bareRun true (w ++ (g ++ ch :: rest)) = w := by
  induction w with
  | nil =>
    have hstop : firstIs (fun c => !(isSpaceOrBreak c || isFlowMark c)) (g ++ ch :: rest) = false :=
      first_flat hg hch _ (by decide)
    cases hcons : g ++ ch :: rest with
    | nil => simp at hcons
    | cons x t =>
      rw [hcons] at hstop
      simp only [firstIs, Bool.not_eq_false', Bool.or_eq_true] at hstop
      rcases hstop with hx | hx <;> simp [bareRun, hx]
  | cons x w ih =>
    simp only [List.all_cons, Bool.and_eq_true, isWordChar, Bool.not_eq_true'] at hw
    obtain ⟨⟨⟨hspace, hmark⟩, hother⟩, hw⟩ := hw
    simp only [List.contains_cons, List.contains_nil, Bool.or_eq_false_iff] at hother
    simp [bareRun, hspace, hmark, hother, ih (by simpa [isWordChar] using hw)]

theorem bareBody_ending (fuel : Nat) (hch : isEnding ch = true) (h : c.rest = ch :: rest)
    (column : Int) (spaces : List Char) (a : Bool) :
    bareBody true column fuel spaces a c = ([], a, c) := by
  have hrun : bareRun true c.rest = [] := by
    rw [h]
    exact bareRun_word (w := []) (g := []) rfl rfl hch
  cases fuel with
  | zero => rfl
  | succ fuel => simp [bareBody, hrun]

theorem bare_word (hw : w.all isWordChar = true) (hne : w ≠ []) (hg : g.all isFlat = true)
    (hch : isEnding ch = true) (h : c.rest = w ++ (g ++ ch :: rest)) (indent : Int) :
    ∃ broke, bare true indent c = (String.ofList w, broke, c.skip (w ++ g).length) := by
  have hafter := Cursor.rest_skip_append h
  obtain ⟨gap, broke, hspaces⟩ := bareSpaces_flat hg hch hafter
  have hrun : bareRun true c.rest = w := by rw [h, bareRun_word hw hg hch]
  have hempty : w.isEmpty = false := by simpa using hne
  have hpeek : (c.peek == '#') = false := by
    obtain ⟨x, w', rfl⟩ := List.exists_cons_of_ne_nil hne
    have hx : isWordChar x = true := List.all_eq_true.mp hw x (by simp)
    simp only [isWordChar, List.contains_cons, Bool.and_eq_true, Bool.not_eq_true',
      Bool.or_eq_false_iff] at hx
    rw [Cursor.peek_cons h]
    exact hx.2.2.2.1
  have hstop := fun fuel =>
    bareBody_ending fuel hch (Cursor.rest_skip_append hafter) (indent + 1) gap broke
  refine ⟨broke, ?_⟩
  simp only [bare, bareBody, hpeek, hrun, hempty, hspaces, hstop, Bool.false_eq_true, if_false,
    List.nil_append, List.append_nil, List.length_append, Cursor.skip_add, ite_self]

theorem ne_of_isAlphanum (h : ch.isAlphanum = true) {x : Char} (hx : x.isAlphanum = false) :
    ch ≠ x := by
  rintro rfl
  rw [h] at hx
  cases hx

theorem takeToken_word (hs : startsWord (ch :: w) = true) (hrest : s.cursor.rest = ch :: w) :
    s.takeToken = s.bareScalar := by
  have hpeek := Cursor.peek_cons hrest
  have hend := Cursor.atEnd_cons hrest
  have hblank : s.cursor.blankAt 1 = endsWord w := blankAt_one hrest
  unfold startsWord at hs
  split at hs
  · next x t heq =>
    obtain ⟨rfl, rfl⟩ := List.cons.inj heq
    have hspace : isSpaceOrBreak x = false := by
      simp [isSpaceOrBreak, isBreak, ne_of_isAlphanum hs]
    have hmark : s.cursor.atMarker = false := by
      refine Cursor.atMarker_of_rest ?_
      rw [hrest]
      simp [isMarker, ne_of_isAlphanum hs (x := '-') (by decide)]
    simp [takeToken, startsBare, hpeek, hend, hblank, hmark, endsWord, hspace]
  · next x t hne heq =>
    obtain ⟨rfl, rfl⟩ := List.cons.inj heq
    have hbare : s.startsBare = true := by
      simp [startsBare, hpeek, isSpaceOrBreak, isBreak, ne_of_isAlphanum hs]
    simp [takeToken, hpeek, hend, hbare, ne_of_isAlphanum hs]
  · cases hs

theorem startsWord_append (h : startsWord w = true) (t : List Char) :
    startsWord (w ++ t) = true := by
  unfold startsWord at h
  split at h
  · exact h
  · next x u hne =>
    have hx : x ≠ '-' := ne_of_isAlphanum h (by decide)
    simpa [startsWord, hx] using h
  · cases h

theorem At.word (h : At s T (level + 1) (g ++ (w ++ (tail ++ ch :: rest))))
    (hg : g.all isFlat = true) (hw : w.all isWordChar = true) (hs : startsWord w = true)
    (ht : tail.all isFlat = true) (hch : isEnding ch = true) :
    ∃ s', Advances s s' ∧
      At s' (T ++ [.scalar (String.ofList w) true]) (level + 1) (ch :: rest) := by
  have hne : w ≠ [] := by
    rintro rfl
    cases hs
  obtain ⟨x, w', hcons⟩ := List.exists_cons_of_ne_nil hne
  have hx : isTokenStart x = true := by
    have hword : isWordChar x = true := List.all_eq_true.mp hw x (by simp [hcons])
    simp only [isWordChar, isSpaceOrBreak, Bool.and_eq_true, Bool.not_eq_true',
      Bool.or_eq_false_iff, beq_eq_false_iff_ne, List.contains_cons] at hword
    simp [isTokenStart, isNewline, hword]
  have hstep : ∃ s', Advances s s' ∧
      At s' (T ++ [.scalar (String.ofList w) true]) (level + 1) (ch :: rest) ∧ True := by
    rw [hcons, List.cons_append] at h
    refine h.advances hg hx (fun r hat _ _ _ => ?_) ?_ (by simp)
    · rw [hcons] at hs
      obtain ⟨r', hsave, hat', hcursor, -⟩ := hat.saveKey
      have hrest : r'.cursor.rest = w ++ (tail ++ ch :: rest) := by
        rw [hat'.rest, hcons, List.cons_append]
      obtain ⟨broke, hbare⟩ := bare_word hw hne ht hch hrest r'.indent
      refine ⟨{ r' with cursor := r'.cursor.skip (w ++ tail).length, allowKey := broke }.push
        (.scalar (String.ofList w) true), ?_, ?_, trivial⟩
      · have hlevel : (r'.flowLevel != 0) = true := by simp [hat'.level]
        rw [takeToken_word (startsWord_append hs _) hat.rest, bareScalar, hsave, ok_bind, hlevel,
          hbare]
        rfl
      · refine ⟨hat'.active, ?_, hat'.level, ?_, hat'.indent, hat'.indents, hat'.optional⟩
        · simp [push, hat'.tokens]
        · rw [← List.append_assoc] at hrest
          exact Cursor.rest_skip_append hrest
    · simp only [List.length_append, List.length_cons]
      omega
  obtain ⟨s', hadv, hat, -⟩ := hstep
  exact ⟨s', hadv, hat⟩

end Bare

end RouteBook.Yaml.Scan
