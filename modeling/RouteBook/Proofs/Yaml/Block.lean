import RouteBook.Proofs.Value
import RouteBook.Proofs.Yaml.Scalar

/-! Blocks: the text of a plain value is cut into the tokens of the value, whatever follows on the
next line. -/
namespace RouteBook.Yaml
open Pen (Writes)
open Scan

def Scalar.token (s : Scalar) : Token := scalarToken (s.style false) s.text.toList

mutual
/-- The tokens of a value; `flush` tells that a list needs no block of its own. -/
def tokensOf (flush : Bool) : Value → List Token
  | .list items =>
    if items.isEmpty then [.flowSequenceStart, .flowSequenceEnd]
    else if flush then itemTokens items
    else .blockSequenceStart :: (itemTokens items ++ [.blockEnd])
  | .map entries =>
    if entries.isEmpty then [.flowMappingStart, .flowMappingEnd]
    else .blockMappingStart :: (entryTokens entries ++ [.blockEnd])
  | v => [(scalarOf v).token]
def itemTokens : List Value → List Token
  | [] => []
  | v :: rest => .blockEntry :: (tokensOf false v ++ itemTokens rest)
def entryTokens : List (Value × Value) → List Token
  | [] => []
  | (k, v) :: rest =>
    .key :: (scalarOf k).token :: .value ::
      (tokensOf (isSimpleKey (scalarOf k)) v ++ entryTokens rest)
end

def keyLength (k : String) : Nat := (writeScalar none true {} (scalarOf (.str k))).out.length

/-- Whether a key that stands before its colon can be found from there. -/
def fitsKey (k : String) : Bool :=
  !isSimpleKey (scalarOf (.str k)) || keyLength k ≤ keyReach

/-- Whether all keys of a value can be found. -/
def fits (v : Value) : Bool := v.every (fun _ => true) fitsKey

/-- The pen before a value: after a mark that may be followed by another one on the same line, or
after the colon of a key. -/
structure Poised (n : Nat) (compact : Bool) (p : Pen) : Prop where
  blank : p.blank = false
  indented : p.indented = compact
  column : compact = true → p.column = n + 1

/-- The text of a value is cut into its tokens. -/
def Reads (n : Nat) (compact : Bool) (v : Value) (w : List Char) : Prop :=
  ∀ (c : Cursor) (T : List Token) (below : List Int) (k : Nat) (next : List Char),
    c.rest = w ++ '\n' :: (List.replicate k ' ' ++ next) → k ≤ n → Starts next →
    n + 1 ≤ c.column → (compact = true → c.column = n + 1) →
    Leads (Unless (fits v) (Rests · (idle (c.skip (w.length + (k + 1)))
      (T ++ tokensOf (!compact) v) n below true))) (idle c T n below compact)

structure Written (n : Nat) (compact : Bool) (v : Value) (p q : Pen) (w : List Char) : Prop where
  writes : Writes p q w
  solid : q.Solid
  readable : ∀ ch ∈ w, isReadable ch = true
  starts : endsWord w = true
  reads : Reads n compact v w

section Atoms
variable {n : Nat} {compact : Bool} {p : Pen}

theorem lead_of_poised (h : Poised n compact p) : p.lead = [' '] := by
  simp [Pen.lead, h.blank]

theorem rests_atom {c : Cursor} {T : List Token} {below : List Int} {next : List Char}
    (h : c.rest = ' ' :: next) (hs : Starts next) :
    Rests (idle c T n below compact) (idle c.next T n below compact) :=
  rests_blanks (k := 1) h hs (by simp [Forgotten])

theorem column_next_blank {c : Cursor} {next : List Char} (h : c.rest = ' ' :: next) :
    c.next.column = c.column + 1 := by
  rw [Cursor.next_inline h (by decide)]

theorem written_scalar {v : Value} {q : Pen} (hn : n + 2 < width) (hp : Poised n compact p)
    (hq : q = writeScalar (some n) false p (scalarOf v)) (htag : (scalarOf v).tag ≠ .null)
    (htokens : ∀ flush, tokensOf flush v = [(scalarOf v).token]) (hfits : fits v = true) :
    ∃ w, Written n compact v p q w := by
  obtain ⟨t, hw, ht, hsolid⟩ := writes_scalar hn p false htag
  rw [← hq] at hw hsolid
  rw [lead_of_poised hp] at hw
  have hlegible := ht.legible (by simp)
  refine ⟨' ' :: t, hw, hsolid, ?_, rfl, ?_⟩
  · intro ch hch
    rcases List.mem_cons.mp hch with rfl | hch
    · decide
    · exact (hlegible ch hch).1
  · intro c T below k next hr hk hs hcol _
    have hbreak : bareRun false ('\n' :: (List.replicate k ' ' ++ next)) = [] := by
      simp [bareRun, isSpaceOrBreak, isBreak]
    have hnext : c.next.rest = t ++ '\n' :: (List.replicate k ' ' ++ next) := by
      rw [Cursor.rest_next, hr]
      rfl
    have hcol' := column_next_blank hr
    have hrest : Rests (idle c T n below compact) (idle c.next T n below compact) :=
      rests_atom hr (starts_scalar ht hbreak)
    have hlead := leads_scalar ht hnext hs hrest (by omega) (by omega) (by omega)
    rw [hfits, htokens, List.length_cons, Nat.add_right_comm, Cursor.skip_succ]
    exact hlead

theorem written_brackets {v : Value} {x y : Char} {t u : Token} (hb : Brackets x y t u)
    (hp : Poised n compact p) (htokens : ∀ flush, tokensOf flush v = [t, u])
    (hfits : fits v = true) :
    Written n compact v p ((p.mark [x] true true false).mark [y] false false false)
      [' ', x, y] := by
  have hw := (Pen.writes_mark p [x] true false).trans
    (Pen.writes_mark_close (p.mark [x] true true false) [y] false false)
  rw [lead_of_poised hp] at hw
  have hreadable : [' ', x, y].all isReadable = true := by cases hb <;> decide
  refine ⟨hw, Pen.solid_mark _ _ _, List.all_eq_true.mp hreadable, rfl, ?_⟩
  · intro c T below k next hr hk hs hcol _
    have hstart : Starts (x :: y :: '\n' :: (List.replicate k ' ' ++ next)) := by
      cases hb <;> exact ⟨rfl, isMarker_of_first rfl⟩
    have hnext : c.next.rest = x :: y :: '\n' :: (List.replicate k ' ' ++ next) := by
      rw [Cursor.rest_next, hr]
      rfl
    have hcol' := column_next_blank hr
    have hrest : Rests (idle c T n below compact) (idle c.next T n below compact) :=
      rests_atom hr hstart
    have hlead := leads_brackets hb hrest (by omega) hnext hs
    rw [hfits, htokens, List.length_cons, Nat.add_right_comm, Cursor.skip_succ]
    exact hlead

end Atoms

section Blocks
variable {n : Nat} {p q r : Pen} {start : Token} {ts us : List Token} {ok good : Bool}
  {g w v : List Char}

/-- The text of the entries of a block is cut into their tokens; the first one opens the block,
unless it is open. -/
def ReadsBlock (n : Nat) (start : Token) (ts : List Token) (ok : Bool) (w : List Char) : Prop :=
  ∀ (s : Scan) (c : Cursor) (T : List Token) (i : Int) (below : List Int) (k : Nat)
    (next : List Char), c.rest = w ++ '\n' :: (List.replicate k ' ' ++ next) → k ≤ n →
    Starts next → c.column = n → i ≤ n → Rests s (idle c T i below true) →
    Leads (Unless ok (Rests · (idle (c.skip (w.length + (k + 1)))
      (T ++ opening i n start ++ ts) n (beneath i n below) true))) s

structure WrittenBlock (n : Nat) (start : Token) (ts : List Token) (ok : Bool) (p q : Pen)
    (g w : List Char) : Prop where
  writes : Writes p q (g ++ w)
  solid : q.Solid
  readable : ∀ ch ∈ w, isReadable ch = true
  starts : ∀ tail, Starts (w ++ '\n' :: tail)
  reads : ReadsBlock n start ts ok w

theorem readable_line (n : Nat) : ∀ ch ∈ '\n' :: List.replicate n ' ', isReadable ch = true := by
  intro ch hch
  simp only [List.mem_cons, List.mem_replicate] at hch
  rcases hch with rfl | ⟨-, rfl⟩ <;> decide

theorem WrittenBlock.append (h : WrittenBlock n start ts ok p q g w)
    (h' : WrittenBlock n start us good q r ('\n' :: List.replicate n ' ') v) :
    WrittenBlock n start (ts ++ us) (ok && good) p r g
      (w ++ '\n' :: (List.replicate n ' ' ++ v)) := by
  refine ⟨?_, h'.solid, ?_, ?_, ?_⟩
  · simpa using h.writes.trans h'.writes
  · have hmore := List.forall_mem_append.mpr ⟨readable_line n, h'.readable⟩
    exact List.forall_mem_append.mpr ⟨h.readable, hmore⟩
  · intro tail
    rw [List.append_assoc]
    exact h.starts _
  · intro s c T i below k next hr hk hs hcol hi hrest
    have hr' : c.rest = w ++ '\n' :: (List.replicate n ' ' ++
        (v ++ '\n' :: (List.replicate k ' ' ++ next))) := by
      simpa using hr
    have hline := Cursor.skip_text_line hr'
    have hopen : opening n n start = [] := by simp [opening]
    have hbeneath : beneath n n (beneath i n below) = beneath i n below := by simp [beneath]
    refine (h.reads s c T i below n _ hr' le_rfl (h'.starts _) hcol hi hrest).then ?_
    intro s' hs'
    have hmore := h'.reads s' _ _ n (beneath i n below) k next hline.1 hk hs hline.2.1 le_rfl hs'
    rw [hopen, hbeneath, List.append_nil, List.append_assoc, ← Cursor.skip_add] at hmore
    have hlen : w.length + (n + 1) + (v.length + (k + 1)) =
        (w ++ '\n' :: (List.replicate n ' ' ++ v)).length + (k + 1) := by
      simp only [List.length_append, List.length_cons, List.length_replicate]
      omega
    rwa [hlen] at hmore

theorem endsWord_line (h : endsWord w = true) (tail : List Char) :
    endsWord (w ++ '\n' :: tail) = true := by
  cases w with
  | nil => rfl
  | cons ch w => exact h

theorem poised_mark (h : p.Fresh n) (ch : Char) : Poised n true (p.mark [ch] true false true) := by
  refine ⟨rfl, ?_, fun _ => ?_⟩
  · simp [Pen.mark, h.indented]
  · simp [Pen.mark, Pen.write, h.column, h.blank]

theorem written_item {a : Value} (hp : Pen.Opens n p g)
    (ha : Written n true a ((p.indent n).mark ['-'] true false true) q w) :
    WrittenBlock n .blockSequenceStart (.blockEntry :: tokensOf false a) (fits a) p q g
      ('-' :: w) := by
  refine ⟨?_, ha.solid, ?_, fun tail => ?_, ?_⟩
  · have hmark := Pen.writes_mark (p.indent n) ['-'] false true
    rw [Pen.lead_fresh hp.fresh] at hmark
    exact hp.writes.trans (hmark.trans ha.writes)
  · exact List.forall_mem_cons.mpr ⟨by decide, ha.readable⟩
  · exact ⟨rfl, isMarker_dash (endsWord_line ha.starts tail)⟩
  · intro s c T i below k next hr hk hs hcol hi hrest
    have hnext := Cursor.next_inline hr (by decide)
    have htake : (idle c T i below true).takeToken = _ :=
      takeToken_entry hr (endsWord_line ha.starts _) (by omega)
    rw [hcol] at htake
    have hstep : Advances s (idle c.next (T ++ opening i n .blockSequenceStart ++ [.blockEntry]) n
        (beneath i n below) true) := by
      refine hrest.advances (by omega) htake (by simp [hnext, hr]) fun hmem => ?_
      exact mem_of_mem_opening (t := .blockSequenceStart) (by decide) (by simpa using hmem)
    have hvalue := ha.reads c.next (T ++ opening i n .blockSequenceStart ++ [.blockEntry])
      (beneath i n below) k next (by rw [hnext]; rfl) hk hs (by simp [hnext, hcol])
      (by simp [hnext, hcol])
    rw [List.length_cons, Nat.add_right_comm, Cursor.skip_succ]
    refine .next hstep ?_
    simpa using hvalue

theorem isSimpleKey_str (k : String) : isSimpleKey (scalarOf (.str k)) =
    (decide (5 + k.toList.length < longKey) && !(analyze k.toList).empty &&
      !(analyze k.toList).multiline) := by
  rw [String.length_toList]
  rfl

theorem simpleKey_facts {s : Scalar} (h : isSimpleKey s = true) :
    (analyze s.text.toList).empty = false ∧ ∀ c ∈ s.text.toList, isBreak c = false := by
  simp only [isSimpleKey, Bool.and_eq_true, Bool.not_eq_true'] at h
  refine ⟨h.1.2, fun c hc => ?_⟩
  cases htext : s.text.toList with
  | nil => simp [htext] at hc
  | cons d ds =>
    have hmultiline := h.2
    rw [htext] at hmultiline hc
    simp only [analyze, List.any_eq_false, Bool.not_eq_true] at hmultiline
    exact hmultiline c hc

theorem style_simpleKey {s : Scalar} (h : isSimpleKey s = true) : s.style true = s.style false := by
  simp only [isSimpleKey, Bool.and_eq_true, Bool.not_eq_true'] at h
  simp [Scalar.style, chooseStyle, h.1.2, h.2]

/-- The length of a key is that of its text wherever it stands. -/
theorem keyLength_eq {k : String} (h : isSimpleKey (scalarOf (.str k)) = true) :
    keyLength k = (lineText ((scalarOf (.str k)).style true) k.toList).length := by
  obtain ⟨t, hw, ht, -⟩ := writes_scalar (n := 0) (by decide) {} true
    (s := scalarOf (.str k)) (by simp [scalarOf])
  have heq := ht.eq_lineText (simpleKey_facts h).2
  have hout : (writeScalar none true {} (scalarOf (.str k))).out = t.reverse := by
    change (writeScalar (some 0) true {} (scalarOf (.str k))).out = t.reverse
    simpa [Writes, Pen.lead] using hw
  rw [keyLength, hout, List.length_reverse, heq]
  rfl

theorem written_simple {k : String} {a : Value} (hn : n + 2 < width) (hp : Pen.Opens n p g)
    (hk : isSimpleKey (scalarOf (.str k)) = true)
    (ha : Written n false a (writeKey n p (.str k)) q w) :
    ∃ t, WrittenBlock n .blockMappingStart
      (.key :: (scalarOf (.str k)).token :: .value :: tokensOf true a) (fitsKey k && fits a) p q g
      (t ++ ':' :: w) := by
  obtain ⟨t, hw, ht, hsolid⟩ := writes_scalar hn (p.indent n) true (s := scalarOf (.str k))
    (by simp [scalarOf])
  have hbreaks := (simpleKey_facts hk).2
  have hlegible := ht.legible fun _ => hbreaks
  have hlength : t.length = keyLength k := by
    rw [keyLength_eq hk, ht.eq_lineText hbreaks]
    rfl
  rw [style_simpleKey hk] at ht
  rw [Pen.lead_fresh hp.fresh] at hw
  refine ⟨t, ?_, ha.solid, ?_, fun tail => ?_, ?_⟩
  · have hcolon := Pen.writes_mark_close (writeScalar (some n) true (p.indent n)
      (scalarOf (.str k))) [':'] false false
    have hkey : Writes p (writeKey n p (.str k)) (g ++ (t ++ [':'])) := by
      have hall := hp.writes.trans (hw.trans hcolon)
      simpa [writeKey, hk] using hall
    simpa using hkey.trans ha.writes
  · intro ch hch
    simp only [List.mem_append, List.mem_cons] at hch
    rcases hch with hch | rfl | hch
    · exact (hlegible ch hch).1
    · decide
    · exact ha.readable ch hch
  · rw [List.append_assoc]
    refine starts_scalar ht ?_
    simp [bareRun, endsWord_line ha.starts tail]
  · intro s c T i below j next hr hj hs hcol hi hrest
    have hr' : c.rest = t ++ ':' :: (w ++ '\n' :: (List.replicate j ' ' ++ next)) := by
      simpa using hr
    have hinline : ∀ x ∈ t, isInline x = true := fun x hx => (hlegible x hx).2 rfl
    have hfit : fitsKey k = decide (t.length ≤ keyReach) := by simp [fitsKey, hk, hlength]
    have hkey := leads_key ht hr' (endsWord_line ha.starts _) hrest (by omega) (by omega) (by omega)
      hinline
    have hskip := Cursor.skip_word_mark hr' (List.all_eq_true.mpr hinline) (by decide)
    rw [hfit]
    refine hkey.then ?_
    rintro s' rfl
    have hvalue := ha.reads (c.skip (t.length + 1)) (T ++ opening i n .blockMappingStart ++
      [.key, (scalarOf (.str k)).token, .value]) (beneath i n below) j next (by rw [hskip]) hj hs
      (by simp [hskip, hcol]) (by simp)
    have hlen : (t ++ ':' :: w).length + (j + 1) = t.length + 1 + (w.length + (j + 1)) := by
      simp only [List.length_append, List.length_cons]
      omega
    rw [hcol, hlen, Cursor.skip_add]
    simpa [Scalar.token] using hvalue

theorem leads_value {a : Value} {s : Scan} {c : Cursor} {T : List Token} {below : List Int}
    {j : Nat} {next : List Char} (ha : Written n true a p q w)
    (hr : c.rest = ':' :: (w ++ '\n' :: (List.replicate j ' ' ++ next))) (hj : j ≤ n)
    (hs : Starts next) (hcol : c.column = n) (hrest : Rests s (idle c T n below true)) :
    Leads (Unless (fits a) (Rests · (idle (c.skip (w.length + 1 + (j + 1)))
      (T ++ .value :: tokensOf false a) n below true))) s := by
  have hnext := Cursor.next_inline hr (by decide)
  have htake : (idle c T n below true).takeToken = _ :=
    takeToken_colon hr (endsWord_line ha.starts _) (by simp [hcol])
  have hstep : Advances s (idle c.next (T ++ [.value]) n below true) :=
    hrest.advances (by simp [hcol]) htake (by simp [hnext, hr]) (by simp)
  have hvalue := ha.reads c.next (T ++ [.value]) below j next (by rw [hnext]) hj hs
    (by simp [hnext, hcol]) (by simp [hnext, hcol])
  rw [Nat.add_right_comm, Cursor.skip_succ]
  refine .next hstep ?_
  simpa using hvalue

theorem written_explicit {k : String} {a : Value} (hn : n + 2 < width) (hp : Pen.Opens n p g)
    (hk : isSimpleKey (scalarOf (.str k)) = false)
    (ha : Written n true a (writeKey n p (.str k)) q w) :
    ∃ t, WrittenBlock n .blockMappingStart
      (.key :: (scalarOf (.str k)).token :: .value :: tokensOf false a) (fitsKey k && fits a) p q g
      ('?' :: ' ' :: (t ++ '\n' :: (List.replicate n ' ' ++ ':' :: w))) := by
  have hpoised := poised_mark hp.fresh '?'
  obtain ⟨t, hw, ht, hsolid⟩ := writes_scalar hn ((p.indent n).mark ['?'] true false true) false
    (s := scalarOf (.str k)) (by simp [scalarOf])
  have hlegible := ht.legible (by simp)
  rw [lead_of_poised hpoised] at hw
  refine ⟨t, ?_, ha.solid, ?_, fun tail => ⟨rfl, isMarker_of_first rfl⟩, ?_⟩
  · have hmark := Pen.writes_mark (p.indent n) ['?'] false true
    rw [Pen.lead_fresh hp.fresh] at hmark
    have hline : Pen.Opens n _ ('\n' :: List.replicate n ' ') := Pen.opens_line hsolid.indented
    have hcolon := Pen.writes_mark ((writeScalar (some n) false
      ((p.indent n).mark ['?'] true false true) (scalarOf (.str k))).indent n) [':'] false true
    rw [Pen.lead_fresh hline.fresh] at hcolon
    have hkey : Writes p (writeKey n p (.str k))
        (g ++ ('?' :: ' ' :: (t ++ '\n' :: (List.replicate n ' ' ++ [':'])))) := by
      have hall := hp.writes.trans (hmark.trans (hw.trans (hline.writes.trans hcolon)))
      simpa [writeKey, hk] using hall
    simpa using hkey.trans ha.writes
  · intro ch hch
    simp only [List.mem_append, List.mem_cons, List.mem_replicate] at hch
    rcases hch with rfl | rfl | hch | rfl | ⟨-, rfl⟩ | rfl | hch
    · decide
    · decide
    · exact (hlegible ch hch).1
    · decide
    · decide
    · decide
    · exact ha.readable ch hch
  · intro s c T i below j next hr hj hs hcol hi hrest
    have hr' : c.rest = '?' :: ' ' :: (t ++ '\n' :: (List.replicate n ' ' ++
        ':' :: (w ++ '\n' :: (List.replicate j ' ' ++ next)))) := by
      simpa using hr
    have hnext := Cursor.next_inline hr' (by decide)
    have hfit : fitsKey k = true := by simp [fitsKey, hk]
    have htake : (idle c T i below true).takeToken = _ := takeToken_question hr' rfl (by omega)
    rw [hcol] at htake
    have hstep : Advances s (idle c.next (T ++ opening i n .blockMappingStart ++ [.key]) n
        (beneath i n below) true) := by
      refine hrest.advances (by omega) htake (by simp [hnext, hr']) fun hmem => ?_
      exact mem_of_mem_opening (t := .blockMappingStart) (by decide) (by simpa using hmem)
    have hblank : c.next.rest = ' ' :: (t ++ '\n' :: (List.replicate n ' ' ++
        ':' :: (w ++ '\n' :: (List.replicate j ' ' ++ next)))) := by rw [hnext]
    have hcolumn : c.next.next.column = n + 2 := by
      rw [column_next_blank hblank, hnext, hcol]
    have htext := Cursor.next_inline hblank (by decide)
    have hline := Cursor.skip_text_line (c := c.next.next) (by rw [htext])
    have hatom : Rests
        (idle c.next (T ++ opening i n .blockMappingStart ++ [.key]) n (beneath i n below) true)
        (idle c.next.next (T ++ opening i n .blockMappingStart ++ [.key]) n (beneath i n below)
          true) :=
      rests_atom hblank (starts_scalar ht (by simp [bareRun, isSpaceOrBreak, isBreak]))
    have hscalar := leads_scalar ht (by rw [htext]) ⟨rfl, isMarker_of_first rfl⟩ hatom le_rfl
      (by omega) (by omega)
    rw [hfit, Bool.true_and]
    -- the key is a value of its own, and the colon on the next line needs no key before it
    refine .next hstep (hscalar.bind fun s' hs' => ?_)
    have hvalue := leads_value ha hline.1 hj hs hline.2.1 hs'
    have hlen : ('?' :: ' ' :: (t ++ '\n' :: (List.replicate n ' ' ++ ':' :: w))).length + (j + 1) =
        t.length + (n + 1) + (w.length + 1 + (j + 1)) + 1 + 1 := by
      simp only [List.length_cons, List.length_append, List.length_replicate]
      omega
    rw [hlen, Cursor.skip_succ, Cursor.skip_succ, Cursor.skip_add]
    simpa [Scalar.token] using hvalue

theorem poised_writeKey (hn : n + 2 < width) (p : Pen) (k : String) :
    Poised n (!isSimpleKey (scalarOf (.str k))) (writeKey n p (.str k)) := by
  cases hk : isSimpleKey (scalarOf (.str k)) with
  | true =>
    simp only [writeKey, hk, if_true]
    exact ⟨rfl, by simp [Pen.mark], by simp⟩
  | false =>
    obtain ⟨t, -, -, hsolid⟩ := writes_scalar hn ((p.indent n).mark ['?'] true false true) false
      (s := scalarOf (.str k)) (by simp [scalarOf])
    have hline : Pen.Opens n _ ('\n' :: List.replicate n ' ') := Pen.opens_line hsolid.indented
    simp only [writeKey, hk, Bool.false_eq_true, if_false]
    exact poised_mark hline.fresh ':'

end Blocks

def Returns (n : Nat) (v : Value) : Prop :=
  ∀ (compact inMapping : Bool) (p : Pen), Poised n compact p →
    (compact = false → inMapping = true) →
    ∃ w, Written n compact v p (writeNode (some n) inMapping p v) w

section Values
variable {n : Nat} {p : Pen} {g : List Char}

theorem written_items {items : List Value} (hne : items ≠ []) (hi : ∀ v ∈ items, Returns n v)
    (hp : Pen.Opens n p g) :
    ∃ w, WrittenBlock n .blockSequenceStart (itemTokens items)
      (Value.everyItem (fun _ => true) fitsKey items) p (writeItems n p items) g w := by
  induction items generalizing p g with
  | nil => exact absurd rfl hne
  | cons v items ih =>
    obtain ⟨w, hv⟩ := hi v (by simp) true false _ (poised_mark hp.fresh '-') (by simp)
    have hitem := written_item hp hv
    cases items with
    | nil => exact ⟨_, by simpa [itemTokens, Value.everyItem, writeItems, fits] using hitem⟩
    | cons v' items =>
      obtain ⟨w', hmore⟩ := ih (by simp) (fun x hx => hi x (by simp [hx]))
        (Pen.opens_line hv.solid.indented)
      exact ⟨_, hitem.append hmore⟩

theorem written_entries {fields : List (String × Value)} (hne : fields ≠ []) (hn : n + 2 < width)
    (hf : ∀ f ∈ fields, Returns n f.2) (hp : Pen.Opens n p g) :
    ∃ w, WrittenBlock n .blockMappingStart (entryTokens (Value.entries fields))
      (Value.everyEntry (fun _ => true) fitsKey (Value.entries fields)) p
      (writeEntries n p (Value.entries fields)) g w := by
  induction fields generalizing p g with
  | nil => exact absurd rfl hne
  | cons f fields ih =>
    obtain ⟨k, v⟩ := f
    have hentry : ∃ w, WrittenBlock n .blockMappingStart
        (.key :: (scalarOf (.str k)).token :: .value ::
          tokensOf (isSimpleKey (scalarOf (.str k))) v) (fitsKey k && fits v) p
        (writeNode (some n) true (writeKey n p (.str k)) v) g w := by
      have hpoised := poised_writeKey hn p k
      obtain ⟨w, hv⟩ := hf (k, v) (by simp) _ true _ hpoised (by simp)
      cases hk : isSimpleKey (scalarOf (.str k)) with
      | true =>
        rw [hk] at hv
        obtain ⟨t, ht⟩ := written_simple hn hp hk hv
        exact ⟨_, ht⟩
      | false =>
        rw [hk] at hv
        obtain ⟨t, ht⟩ := written_explicit hn hp hk hv
        exact ⟨_, ht⟩
    obtain ⟨w, hentry⟩ := hentry
    cases fields with
    | nil =>
      exact ⟨w, by simpa [Value.entries, entryTokens, Value.everyEntry, Value.every, writeEntries,
        fits] using hentry⟩
    | cons f' fields =>
      obtain ⟨w', hmore⟩ := ih (by simp) (fun x hx => hf x (by simp [hx]))
        (Pen.opens_line hentry.solid.indented)
      exact ⟨_, by simpa [Value.entries, entryTokens, Value.everyEntry, Value.every, writeEntries,
        fits] using hentry.append hmore⟩

def descent (n : Nat) (compact : Bool) : List Char :=
  if compact then [' '] else '\n' :: List.replicate (n + 2) ' '

theorem opens_descent {compact : Bool} (hp : Poised n compact p) :
    Pen.Opens (n + 2) p (descent n compact) := by
  cases compact with
  | true => exact Pen.opens_next hp.indented (hp.column rfl)
  | false => exact Pen.opens_line hp.indented

theorem rests_descent {compact : Bool} {c : Cursor} {T : List Token} {below : List Int}
    {next : List Char} (hr : c.rest = descent n compact ++ next) (hs : Starts next)
    (hcol : compact = true → c.column = n + 1) :
    Rests (idle c T n below compact) (idle (c.skip (descent n compact).length) T n below true) ∧
      (c.skip (descent n compact).length).column = n + 2 := by
  cases compact with
  | true => exact ⟨rests_atom hr hs, by simp [descent, Cursor.skip, column_next_blank hr, hcol]⟩
  | false =>
    have hlen : (descent n false).length = n + 2 + 1 := by simp [descent]
    rw [hlen]
    refine ⟨rests_line hr hs (by simp [Forgotten]), ?_⟩
    rw [Cursor.skip_line hr]

theorem readable_descent (compact : Bool) : ∀ ch ∈ descent n compact, isReadable ch = true := by
  cases compact with
  | true => exact List.forall_mem_singleton.mpr (by decide)
  | false => exact readable_line (n + 2)

theorem Written.of_block {compact ok : Bool} {v : Value} {q : Pen} {start : Token} {ts : List Token}
    {w : List Char} (hb : WrittenBlock (n + 2) start ts ok p q (descent n compact) w)
    (htokens : tokensOf (!compact) v = start :: (ts ++ [.blockEnd])) (hfits : fits v = ok) :
    Written n compact v p q (descent n compact ++ w) := by
  refine ⟨hb.writes, hb.solid, ?_, ?_, ?_⟩
  · exact List.forall_mem_append.mpr ⟨readable_descent compact, hb.readable⟩
  · cases compact <;> rfl
  · intro c T below k next hr hk hs _ hcol
    rw [List.append_assoc] at hr
    obtain ⟨hrest, hcolumn⟩ : Rests (idle c T n below compact)
        (idle (c.skip (descent n compact).length) T n below true) ∧ _ :=
      rests_descent hr (hb.starts _) hcol
    have hr' := Cursor.rest_skip_append hr
    have hline := Cursor.skip_text_line hr'
    have hopen : opening n (n + 2 : Nat) start = [start] := by simp [opening]
    have hbeneath : beneath n (n + 2 : Nat) below = (n : Int) :: below := by simp [beneath]
    have hblock := hb.reads _ _ T n below k next hr' (by omega) hs hcolumn (by omega) hrest
    -- the next line stands further left than the block, which ends it
    rw [hfits, htokens]
    refine hblock.weaken fun s hs => ?_
    rw [hopen, hbeneath] at hs
    have hclosed := hs.close (by rw [hline.2.1]; omega)
    rw [← Cursor.skip_add, ← Nat.add_assoc, ← List.length_append] at hclosed
    simpa using hclosed

theorem Written.of_flush {ok : Bool} {v : Value} {q : Pen} {start : Token} {ts : List Token}
    {w : List Char} (hb : WrittenBlock n start ts ok p q ('\n' :: List.replicate n ' ') w)
    (htokens : tokensOf true v = ts) (hfits : fits v = ok) :
    Written n false v p q ('\n' :: List.replicate n ' ' ++ w) := by
  refine ⟨hb.writes, hb.solid, ?_, rfl, ?_⟩
  · exact List.forall_mem_append.mpr ⟨readable_line n, hb.readable⟩
  · intro c T below k next hr hk hs _ _
    have hr' : c.rest = [] ++ '\n' :: (List.replicate n ' ' ++
        (w ++ '\n' :: (List.replicate k ' ' ++ next))) := by
      simpa using hr
    have hline := Cursor.skip_text_line hr'
    have hrest : Rests (idle c T n below false) (idle (c.skip (n + 1)) T n below true) :=
      rests_line hr' (hb.starts _) (by simp [Forgotten])
    rw [List.length_nil, Nat.zero_add] at hline
    have hopen : opening n n start = [] := by simp [opening]
    have hbeneath : beneath n n below = below := by simp [beneath]
    have hblock := hb.reads _ _ T n below k next hline.1 hk hs hline.2.1 le_rfl hrest
    have hlen : ('\n' :: List.replicate n ' ' ++ w).length + (k + 1) =
        n + 1 + (w.length + (k + 1)) := by
      simp only [List.length_append, List.length_cons, List.length_replicate]
      omega
    rw [Bool.not_false, hfits, htokens, hlen, Cursor.skip_add]
    simpa [hopen, hbeneath] using hblock

theorem writeNode_list (b : Bool) (p : Pen) (v : Value) (vs : List Value) :
    writeNode (some n) b p (.list (v :: vs)) =
      writeItems (blockIndent (some n) (b && !p.indented)) p (v :: vs) := by
  simp [writeNode, writeItems]

theorem writeNode_map (outer : Option Nat) (b : Bool) (p : Pen) (e : Value × Value)
    (es : List (Value × Value)) :
    writeNode outer b p (.map (e :: es)) = writeEntries (blockIndent outer false) p (e :: es) := by
  simp [writeNode, writeEntries]

theorem returns_list {items : List Value} (h : ∀ v ∈ items, Returns n v)
    (h' : ∀ v ∈ items, Returns (n + 2) v) : Returns n (.list items) := by
  intro compact inMapping p hp hin
  cases items with
  | nil =>
    refine ⟨_, written_brackets .list hp ?_ ?_⟩
    · simp [tokensOf]
    · simp [fits, Value.every, Value.everyItem]
  | cons v vs =>
    rw [writeNode_list, hp.indented]
    cases compact with
    | true =>
      -- after a mark on the same line the list has a block of its own
      rw [Bool.not_true, Bool.and_false]
      obtain ⟨w, hw⟩ := written_items (by simp) h' (opens_descent hp)
      exact ⟨_, .of_block hw (by simp [tokensOf]) (by simp [fits, Value.every])⟩
    | false =>
      -- after the colon of a key it has none
      rw [hin rfl]
      obtain ⟨w, hw⟩ := written_items (by simp) h (Pen.opens_line hp.indented)
      exact ⟨_, .of_flush hw (by simp [tokensOf]) (by simp [fits, Value.every])⟩

theorem returns_map {fields : List (String × Value)} (hn : n + 4 < width)
    (h : ∀ f ∈ fields, Returns (n + 2) f.2) : Returns n (.map (Value.entries fields)) := by
  intro compact inMapping p hp _
  cases fields with
  | nil =>
    refine ⟨_, written_brackets .map hp ?_ ?_⟩
    · simp [tokensOf, Value.entries]
    · simp [fits, Value.every, Value.everyEntry, Value.entries]
  | cons f fs =>
    obtain ⟨w, hw⟩ := written_entries (by simp) hn h (opens_descent hp)
    refine ⟨_, .of_block (v := .map (Value.entries (f :: fs))) hw ?_ ?_⟩
    · simp [tokensOf, Value.entries]
    · simp [fits, Value.every]

/-- Values that are not too deep are written and read back. -/
theorem returns_of_plain {v : Value} {m : Nat} (h : v.Plain) (hd : v.Within m)
    (hn : n + 2 * m + 2 < width) : Returns n v := by
  induction h generalizing m n with
  | str s =>
    intro compact inMapping p hp _
    exact written_scalar (by omega) hp (by simp [writeNode]) (by simp [scalarOf])
      (by simp [tokensOf]) (by simp [fits, Value.every])
  | bool b =>
    intro compact inMapping p hp _
    exact written_scalar (by omega) hp (by simp [writeNode]) (by simp [scalarOf])
      (by simp [tokensOf]) (by simp [fits, Value.every])
  | list _ ih =>
    cases hd with
    | list hd =>
      exact returns_list (fun v hv => ih v hv (hd v hv) (by omega))
        (fun v hv => ih v hv (hd v hv) (by omega))
  | @map fields _ _ ih =>
    generalize hentries : Value.entries fields = es at hd
    cases hd with
    | map hd =>
      subst hentries
      refine returns_map (by omega) fun f hf => ih f hf (hd (.str f.1, f.2) ?_) (by omega)
      exact List.mem_map.mpr ⟨f, hf, rfl⟩

end Values

end RouteBook.Yaml
