import RouteBook.Proofs.Except
import RouteBook.Proofs.Yaml.Scan

/-! The tokens that consist of marks: entries, keys, values, empty brackets and the end. -/
namespace RouteBook.Yaml.Scan
open Outcome (ok_bind)
variable {s : Scan} {c : Cursor} {T : List Token} {i : Int} {below : List Int} {a : Bool}
  {tail : List Char}

/-- The token that opens a block at a column, if the column is beyond the block around it. -/
def opening (i column : Int) (t : Token) : List Token := if i < column then [t] else []

def beneath (i column : Int) (below : List Int) : List Int :=
  if i < column then i :: below else below

theorem mem_of_mem_opening {column : Int} {t : Token} (ht : t ≠ .streamEnd)
    (h : Token.streamEnd ∈ T ++ opening i column t) : Token.streamEnd ∈ T := by
  unfold opening at h
  split at h <;> simpa [Ne.symm ht] using h

theorem openFor_idle (hi : i ≤ c.column) (t : Token) :
    (idle c T i below true).openFor t =
      .ok (idle c (T ++ opening i c.column t) c.column (beneath i c.column below) true) := by
  by_cases h : i < c.column
  · simp [openFor, open?, idle, opening, beneath, h, push]
  · have he : i = c.column := by omega
    simp [openFor, open?, idle, opening, beneath, he]

theorem dropKey_idle : (idle c T i below a).dropKey = .ok (idle c T i below a) :=
  dropKey_other (by simp [idle])

theorem take_idle (n : Nat) (t : Token) :
    (idle c T i below a).take n t = idle (c.skip n) (T ++ [t]) i below a := by
  simp [take, push, idle]

theorem blankAt_one {ch : Char} (h : c.rest = ch :: tail) : c.blankAt 1 = endsWord tail := by
  unfold Cursor.blankAt endsWord
  rw [h]
  cases tail <;> rfl

theorem isMarker_dash (h : endsWord tail = true) : isMarker ('-' :: tail) = false := by
  cases tail with
  | nil => rfl
  | cons ch tail =>
    have hne : ch ≠ '-' := by
      rintro rfl
      simp [endsWord, isSpaceOrBreak, isBreak] at h
    simp [isMarker, hne]

theorem takeToken_entry (h : c.rest = '-' :: tail) (ht : endsWord tail = true)
    (hi : i ≤ c.column) : (idle c T i below true).takeToken =
      .ok (idle c.next (T ++ opening i c.column .blockSequenceStart ++ [.blockEntry]) c.column
        (beneath i c.column below) true) := by
  have hmark : c.atMarker = false := Cursor.atMarker_of_rest (by rw [h]; exact isMarker_dash ht)
  have hstep : (idle c T i below true).takeToken = (idle c T i below true).blockEntry := by
    simp [takeToken, Cursor.peek_cons h, Cursor.atEnd_cons h, blankAt_one h, ht, hmark]
  rw [hstep, blockEntry, openFor_idle hi, ok_bind, dropKey_idle, ok_bind]
  exact congrArg Except.ok (take_idle 1 _)

theorem takeToken_question (h : c.rest = '?' :: tail) (ht : endsWord tail = true)
    (hi : i ≤ c.column) : (idle c T i below true).takeToken =
      .ok (idle c.next (T ++ opening i c.column .blockMappingStart ++ [.key]) c.column
        (beneath i c.column below) true) := by
  have hstep : (idle c T i below true).takeToken = (idle c T i below true).explicitKey := by
    simp [takeToken, Cursor.peek_cons h, Cursor.atEnd_cons h, blankAt_one h, ht]
  rw [hstep, explicitKey, openFor_idle hi, ok_bind, dropKey_idle, ok_bind]
  exact congrArg Except.ok (take_idle 1 _)

theorem takeToken_colon (h : c.rest = ':' :: tail) (ht : endsWord tail = true)
    (hi : i = c.column) : (idle c T i below true).takeToken =
      .ok (idle c.next (T ++ [.value]) i below true) := by
  have hstep : (idle c T i below true).takeToken = (idle c T i below true).value := by
    simp [takeToken, Cursor.peek_cons h, Cursor.atEnd_cons h, blankAt_one h, ht]
  have hopen : (idle c T i below true).openFor .blockMappingStart =
      .ok (idle c T i below true) := by
    rw [openFor_idle (Int.le_of_eq hi)]
    simp [opening, beneath, hi]
  have hvalue : (idle c T i below true).value =
      (idle c T i below true).openFor .blockMappingStart >>= fun s =>
        { s with allowKey := s.flowLevel == 0 }.dropKey >>= fun s => .ok (s.take 1 .value) := rfl
  rw [hstep, hvalue, hopen, ok_bind]
  change (idle c T i below true).dropKey >>= _ = _
  rw [dropKey_idle, ok_bind]
  exact congrArg Except.ok (take_idle 1 _)

section Key
variable {tok : Token} {key : KeyStart}

theorem insertIdx_length (T : List Token) (t u : Token) (us : List Token) :
    (T ++ u :: us).insertIdx T.length t = T ++ t :: u :: us := by
  induction T with
  | nil => rfl
  | cons x T ih => simpa using ih

theorem front_colon (hr : c.rest = ':' :: tail) :
    toNextToken c.rest.length.succ (holding c T i below a [(0, key)]) =
      holding c T i below a [(0, key)] :=
  toNextToken_blanks (k := 0) hr ⟨rfl, isMarker_of_first rfl⟩ (Nat.succ_pos c.rest.length)

theorem ready_near (hr : c.rest = ':' :: tail) (hl : key.line = c.line)
    (hn : c.index - key.index ≤ keyReach) (hi : i ≤ c.column) :
    (holding c T i below a [(0, key)]).ready = .ok (holding c T i below a [(0, key)]) := by
  have hstale : (holding c T i below a [(0, key)]).dropStale =
      .ok (holding c T i below a [(0, key)]) :=
    dropStale_near (by simpa [holding] using ⟨hl, Nat.sub_le_iff_le_add.mp hn⟩)
  rw [ready]
  change (toNextToken c.rest.length.succ (holding c T i below a [(0, key)])).dropStale >>= _ = _
  rw [front_colon hr, hstale, ok_bind]
  exact congrArg Except.ok (unwind_of_le rfl hi)

theorem step_colon (hr : c.rest = ':' :: tail) (ht : endsWord tail = true)
    (hl : key.line = c.line) (hn : c.index - key.index ≤ keyReach) (hi : i ≤ c.column)
    (hp : key.place = T.length) (hk : i ≤ key.column) :
    (holding c (T ++ [tok]) i below false [(0, key)]).step =
      .ok (idle c.next (T ++ opening i key.column .blockMappingStart ++ [.key, tok, .value])
        key.column (beneath i key.column below) false) := by
  have hstep : (holding c (T ++ [tok]) i below false [(0, key)]).takeToken =
      (holding c (T ++ [tok]) i below false [(0, key)]).value := by
    simp [takeToken, holding, Cursor.peek_cons hr, Cursor.atEnd_cons hr, blankAt_one hr, ht]
  have hkey : (T ++ [tok]).insertIdx T.length .key = T ++ [.key, tok] := insertIdx_length T _ _ _
  rw [step, ready_near hr hl hn hi, ok_bind, hstep]
  by_cases hopen : i < key.column
  · have hmap : (T ++ [.key, tok]).insertIdx T.length .blockMappingStart =
        T ++ [.blockMappingStart, .key, tok] := insertIdx_length T _ _ _
    simp [value, holding, idle, open?, opening, beneath, hopen, take, push, hp, hkey, hmap,
      Cursor.skip]
  · have he : i = key.column := by omega
    simp [value, holding, idle, open?, opening, beneath, he, take, push, hp, hkey, Cursor.skip]

theorem step_colon_far (hr : c.rest = ':' :: tail) (ht : endsWord tail = true)
    (hn : keyReach < c.index - key.index) (hi : i ≤ c.column) :
    ∃ e, (holding c T i below false [(0, key)]).step = .error e := by
  have hready : (holding c T i below false [(0, key)]).ready =
      if key.required then .error .malformed else .ok (idle c T i below false) := by
    have hstale : (holding c T i below false [(0, key)]).dropStale =
        if key.required then .error .malformed else .ok (idle c T i below false) := by
      simp [dropStale, holding, hn, idle]
    rw [ready]
    change (toNextToken c.rest.length.succ (holding c T i below false [(0, key)])).dropStale >>= _
      = _
    rw [front_colon hr, hstale]
    cases key.required with
    | true => rfl
    | false => exact congrArg Except.ok (unwind_of_le rfl hi)
  cases hreq : key.required with
  | true => exact ⟨.malformed, by rw [step, hready, hreq]; rfl⟩
  | false =>
    have hvalue : (idle c T i below false).takeToken = (idle c T i below false).value := by
      simp [takeToken, Cursor.peek_cons hr, Cursor.atEnd_cons hr, blankAt_one hr, ht]
    refine ⟨.malformed, ?_⟩
    rw [step, hready, hreq]
    exact hvalue

end Key

/-- The token at the cursor, where it may turn out to be a key. -/
def pending (c : Cursor) (T : List Token) (i : Int) (a : Bool) : List (Nat × KeyStart) :=
  if a then [(0, ⟨T.length, i == c.column, c.index, c.line, c.column⟩)] else []

theorem saveKey_idle :
    (idle c T i below a).saveKey = .ok (holding c T i below a (pending c T i a)) := by
  cases a with
  | false => rfl
  | true => simp [saveKey, idle, holding, pending, dropKey]

theorem forgotten_pending {line : Nat} (hi : i < c.column) (hl : c.line < line) :
    Forgotten line (pending c T i a) := by
  have hne : i ≠ c.column := by omega
  cases a with
  | false => simp [Forgotten, pending]
  | true =>
    simp [Forgotten, pending, hne]
    omega

inductive Brackets : Char → Char → Token → Token → Prop
  | list : Brackets '[' ']' .flowSequenceStart .flowSequenceEnd
  | map : Brackets '{' '}' .flowMappingStart .flowMappingEnd

theorem Brackets.inline {x y : Char} {t u : Token} (h : Brackets x y t u) :
    isInline x = true ∧ isInline y = true := by
  cases h <;> decide

def bracketed (c : Cursor) (T : List Token) (i : Int) (below : List Int)
    (keys : List (Nat × KeyStart)) : Scan :=
  { holding c T i below true keys with flowLevel := 1 }

theorem takeToken_open {x y : Char} {t u : Token} (hb : Brackets x y t u) (h : c.rest = x :: tail) :
    (idle c T i below a).takeToken =
      .ok (bracketed c.next (T ++ [t]) i below (pending c T i a)) := by
  have hstep : (idle c T i below a).takeToken = (idle c T i below a).flowOpen t := by
    cases hb <;> simp [takeToken, Cursor.peek_cons h, Cursor.atEnd_cons h]
  rw [hstep, flowOpen, saveKey_idle, ok_bind]
  simp [bracketed, holding, idle, take, push, Cursor.skip]
  rfl

theorem step_close {x y : Char} {t u : Token} {keys : List (Nat × KeyStart)}
    (hb : Brackets x y t u) (h : c.rest = y :: tail)
    (hk : ∀ key ∈ keys, key.1 = 0 ∧ key.2.line = c.line ∧ c.index - key.2.index ≤ keyReach) :
    (bracketed c T i below keys).step = .ok (holding c.next (T ++ [u]) i below false keys) := by
  have hstart : Starts (y :: tail) := by
    cases hb <;> exact ⟨rfl, isMarker_of_first rfl⟩
  have hfront : toNextToken c.rest.length.succ (bracketed c T i below keys) =
      bracketed c T i below keys :=
    toNextToken_blanks (k := 0) h hstart (Nat.succ_pos c.rest.length)
  have hstale : (bracketed c T i below keys).dropStale = .ok (bracketed c T i below keys) :=
    dropStale_near fun key hkey => (hk key hkey).2
  have hready : (bracketed c T i below keys).ready = .ok (bracketed c T i below keys) := by
    rw [ready]
    change (toNextToken c.rest.length.succ (bracketed c T i below keys)).dropStale >>= _ = _
    rw [hfront, hstale]
    rfl
  have hstep : (bracketed c T i below keys).takeToken =
      (bracketed c T i below keys).flowClose u := by
    cases hb <;> simp [takeToken, bracketed, holding, Cursor.peek_cons h, Cursor.atEnd_cons h]
  have hdrop : (bracketed c T i below keys).dropKey = .ok (bracketed c T i below keys) :=
    dropKey_other fun key hkey => by simp [(hk key hkey).1, bracketed]
  rw [step, hready, ok_bind, hstep, flowClose, hdrop, ok_bind]
  simp [bracketed, holding, idle, take, push, Cursor.skip]
  rfl

theorem leads_brackets {x y : Char} {t u : Token} {k : Nat} {next : List Char}
    (hb : Brackets x y t u) (h : Rests s (idle c T i below a)) (hi : i < c.column)
    (hr : c.rest = x :: y :: '\n' :: (List.replicate k ' ' ++ next)) (hs : Starts next) :
    Leads (Rests · (idle (c.skip (2 + (k + 1))) (T ++ [t, u]) i below true)) s := by
  have hx := Cursor.next_inline hr hb.inline.1
  have hnext : c.next.rest = y :: '\n' :: (List.replicate k ' ' ++ next) := by rw [hx]
  have hy := Cursor.next_inline hnext hb.inline.2
  have hend : c.next.next.rest = '\n' :: (List.replicate k ' ' ++ next) := by rw [hy]
  have hopen : Advances s (bracketed c.next (T ++ [t]) i below (pending c T i a)) := by
    refine h.advances (Int.le_of_lt hi) (takeToken_open hb hr) ?_ ?_
    · change c.next.rest.length < c.rest.length
      simp [hnext, hr]
    · cases hb <;> simp [bracketed, holding]
  have hclose : Advances (bracketed c.next (T ++ [t]) i below (pending c T i a))
      (holding c.next.next (T ++ [t] ++ [u]) i below false (pending c T i a)) := by
    refine ⟨rfl, step_close hb hnext ?_, ?_, ?_⟩
    · cases a with
      | false => simp [pending]
      | true =>
        intro key hkey
        rw [List.mem_singleton.mp hkey]
        refine ⟨rfl, by rw [hx], ?_⟩
        simp only [hx, keyReach]
        omega
    · change c.next.next.rest.length < c.next.rest.length
      simp [hnext, hend]
    · cases hb <;> simp [bracketed, holding]
  have hline : c.line < (c.next.next.skip (k + 1)).line := by
    have htext := (Cursor.skip_text_line (w := [x, y]) hr).2.2
    rwa [Cursor.skip_add] at htext
  have hrests : Rests (holding c.next.next (T ++ [t] ++ [u]) i below false (pending c T i a))
      (idle (c.next.next.skip (k + 1)) (T ++ [t] ++ [u]) i below true) :=
    rests_line hend hs (forgotten_pending hi hline)
  rw [Cursor.skip_add, List.append_cons]
  exact .next hopen (.next hclose (.here hrests))

/-- The end of the text closes the outermost block. -/
theorem run_end (h : Rests s (idle c T 0 [-1] true)) (hc : c.rest = []) (fuel : Nat) :
    run (fuel + 2) s = (T ++ [Token.blockEnd, Token.streamEnd]).toArray := by
  have hstep : s.step = (idle c T 0 [-1] true).streamEnd := by
    rw [h.step (by simp)]
    simp [takeToken, Cursor.atEnd, hc]
  have hunwind : (idle c T 0 [-1] true).unwind (-1) = idle c (T ++ [.blockEnd]) (-1) [] true := by
    rw [unwind_close (by decide), unwind_of_le rfl (by simp [idle])]
  rw [streamEnd, hunwind, dropKey_idle, ok_bind] at hstep
  rw [run, h.active, hstep]
  simp [run, push, idle, pure, Except.pure]

end RouteBook.Yaml.Scan
