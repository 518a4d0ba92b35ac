import Mathlib.Data.List.TakeWhile
import RouteBook.Yaml.Cursor

/-! Where the cursor stands after words, blanks and line feeds. -/
namespace RouteBook.Yaml

def isInline (c : Char) : Bool := !isNewline c && c != '\uFEFF'

theorem isBreak_of_not_newline {c : Char} (h : isNewline c = false) : isBreak c = false := by
  simp only [isNewline, Bool.or_eq_false_iff] at h
  exact h.2

theorem takeWhile_run {p : Char → Bool} {w t : List Char} (hw : w.all p = true)
    (ht : firstIs p t = false) : (w ++ t).takeWhile p = w := by
  have hstop : t.takeWhile p = [] := by
    cases t with
    | nil => rfl
    | cons c t => simpa [firstIs] using ht
  rw [List.takeWhile_append_of_pos (by simpa using hw), hstop, List.append_nil]

namespace Cursor
variable {c : Cursor} {ch : Char} {w t next : List Char} {k m n : Nat}

theorem peek_cons (h : c.rest = ch :: t) : c.peek = ch := by
  simp [peek, h]

theorem atEnd_cons (h : c.rest = ch :: t) : c.atEnd = false := by
  simp [atEnd, h]

theorem next_inline (h : c.rest = ch :: t) (hc : isInline ch = true) :
    c.next = ⟨t, c.index + 1, c.line, c.column + 1⟩ := by
  simp only [isInline, Bool.and_eq_true, Bool.not_eq_true', bne_iff_ne, ne_eq] at hc
  have hcr : (ch == '\r') = false := by
    simp only [isNewline, Bool.or_eq_false_iff] at hc
    exact hc.1.1
  simp [next, h, isBreak_of_not_newline hc.1, hcr, hc.2]

theorem next_lineFeed (h : c.rest = '\n' :: t) :
    c.next = ⟨t, c.index + 1, c.line + 1, 0⟩ := by
  simp [next, h, isBreak]

theorem rest_next (c : Cursor) : c.next.rest = c.rest.drop 1 := by
  unfold next
  split
  · simp [*]
  · split <;> simp [*]

theorem line_le_next (c : Cursor) : c.line ≤ c.next.line := by
  unfold next
  split
  · exact le_rfl
  · split <;> simp

theorem skip_succ (c : Cursor) (n : Nat) : c.skip (n + 1) = c.next.skip n := rfl

theorem skip_add (c : Cursor) (m n : Nat) : c.skip (m + n) = (c.skip m).skip n := by
  induction m generalizing c with
  | zero => simp [skip]
  | succ m ih => rw [Nat.succ_add, skip_succ, ih, skip_succ]

theorem rest_skip (c : Cursor) (n : Nat) : (c.skip n).rest = c.rest.drop n := by
  induction n generalizing c with
  | zero => rfl
  | succ n ih => rw [skip_succ, ih, rest_next, List.drop_drop, Nat.add_comm]

theorem rest_skip_append (h : c.rest = w ++ t) : (c.skip w.length).rest = t := by
  rw [rest_skip, h, List.drop_left]

theorem line_le_skip (c : Cursor) (n : Nat) : c.line ≤ (c.skip n).line := by
  induction n generalizing c with
  | zero => exact le_rfl
  | succ n ih => exact (line_le_next c).trans (ih c.next)

theorem skip_inline (h : c.rest = w ++ t) (hw : w.all isInline = true) :
    c.skip w.length = ⟨t, c.index + w.length, c.line, c.column + w.length⟩ := by
  induction w generalizing c with
  | nil =>
    subst h
    rfl
  | cons ch w ih =>
    simp only [List.all_cons, Bool.and_eq_true] at hw
    have hnext := next_inline (t := w ++ t) h hw.1
    rw [List.length_cons, skip_succ, ih (by rw [hnext]) hw.2, hnext]
    simp [Nat.add_comm, Nat.add_left_comm]

theorem skip_word_mark (h : c.rest = w ++ ch :: t) (hw : w.all isInline = true)
    (hc : isInline ch = true) :
    c.skip (w.length + 1) = ⟨t, c.index + w.length + 1, c.line, c.column + w.length + 1⟩ := by
  have hword := skip_inline h hw
  have hmark := next_inline (rest_skip_append h) hc
  rw [skip_add]
  simpa [skip, hword] using hmark

theorem all_inline_replicate (k : Nat) : (List.replicate k ' ').all isInline = true := by
  rw [List.all_replicate]
  split <;> decide

theorem skip_line (h : c.rest = '\n' :: (List.replicate k ' ' ++ t)) :
    c.skip (k + 1) = ⟨t, c.index + (k + 1), c.line + 1, k⟩ := by
  have hnext := next_lineFeed h
  have hskip := skip_inline (c := c.next) (by rw [hnext]) (all_inline_replicate k)
  rw [List.length_replicate] at hskip
  rw [skip_succ, hskip, hnext]
  simp [Nat.add_comm, Nat.add_left_comm]

theorem skip_text_line (h : c.rest = w ++ '\n' :: (List.replicate k ' ' ++ next)) :
    (c.skip (w.length + (k + 1))).rest = next ∧ (c.skip (w.length + (k + 1))).column = k ∧
      c.line < (c.skip (w.length + (k + 1))).line := by
  have hline := skip_line (rest_skip_append h)
  have hle := line_le_skip c w.length
  rw [skip_add, hline]
  exact ⟨rfl, rfl, by simp only; omega⟩

theorem span_run {p : Char → Bool} (h : c.rest = w ++ t) (hw : w.all p = true)
    (ht : firstIs p t = false) : c.span p = (w, c.skip w.length) := by
  simp only [span, h, takeWhile_run hw ht]

theorem skipWhile_run {p : Char → Bool} (h : c.rest = w ++ t) (hw : w.all p = true)
    (ht : firstIs p t = false) : c.skipWhile p = c.skip w.length := by
  rw [skipWhile, span_run h hw ht]

theorem skipWhile_none {p : Char → Bool} (h : firstIs p c.rest = false) : c.skipWhile p = c :=
  skipWhile_run (w := []) rfl rfl h

theorem skipSpaces_blanks (h : c.rest = List.replicate k ' ' ++ t)
    (ht : firstIs (· == ' ') t = false) : c.skipSpaces = c.skip k := by
  have hrun := skipWhile_run (p := (· == ' ')) h (by simp) ht
  rwa [List.length_replicate] at hrun

theorem lineBreak_lineFeed (h : c.rest = '\n' :: t) : c.lineBreak = (['\n'], c.next) := by
  unfold lineBreak
  rw [h]
  rfl

end Cursor

theorem isMarker_of_first {s : List Char}
    (h : firstIs (fun ch => ch == '-' || ch == '.') s = false) :
    isMarker s = false := by
  cases s with
  | nil => rfl
  | cons ch s =>
    simp only [firstIs, Bool.or_eq_false_iff, beq_eq_false_iff_ne] at h
    simp [isMarker, h]

theorem Cursor.atMarker_of_rest {c : Cursor} (h : isMarker c.rest = false) :
    c.atMarker = false := by
  simp [atMarker, h]

end RouteBook.Yaml
