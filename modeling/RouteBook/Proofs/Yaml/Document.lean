import RouteBook.Proofs.Yaml.Fault
import RouteBook.Proofs.Yaml.Node

/-! The tokens of a document: those of its value, or a fault where a key cannot be found. -/
namespace RouteBook.Yaml
open Node (Broken)
open Scan

section
variable {ok : Bool} {q : Pen} {start : Token} {ts : List Token} {w next : List Char} {c : Cursor}

theorem peek_of_starts (h : c.rest = next) (hs : Starts next) : (c.peek == '\uFEFF') = false := by
  cases next with
  | nil => simp [Cursor.peek, h]
  | cons ch next =>
    have hfirst := hs.first
    simp only [firstIs, isInline, Bool.or_eq_false_iff, Bool.not_eq_false', Bool.and_eq_true]
      at hfirst
    simpa [Cursor.peek_cons h] using hfirst.2.2

theorem scan_block (h : WrittenBlock 0 start ts ok {} q [] w) :
    if ok then Token.scan (w ++ ['\n']) = start :: (ts ++ [.blockEnd, .streamEnd])
    else Broken (Token.scan (w ++ ['\n'])) := by
  have hreadable : (w ++ ['\n']).all isReadable = true := by
    rw [List.all_append, List.all_eq_true.mpr h.readable]
    decide
  have hscan : Token.scan (w ++ ['\n']) =
      (run ((w ++ ['\n']).length + 2) (idle { rest := w ++ ['\n'] } [] (-1) [] true)).toList := by
    simp only [Token.scan, hreadable, if_true]
    rw [peek_of_starts (c := { rest := w ++ ['\n'] }) rfl (h.starts [])]
    rfl
  have hrest : Rests (idle { rest := w ++ ['\n'] } [] (-1) [] true)
      (idle { rest := w ++ ['\n'] } [] (-1) [] true) :=
    rests_blanks (k := 0) rfl (h.starts []) (by simp [Forgotten])
  have hleads := h.reads _ _ [] (-1) [] 0 [] rfl le_rfl ⟨rfl, rfl⟩ rfl (by decide) hrest
  obtain ⟨s, m, hs, hlen, hend, hrun⟩ := run_of_leads hleads
  have hfuel : (w ++ ['\n']).length + 2 = (w ++ ['\n']).length - m + 2 + m := by
    simp only [cursor_idle] at hlen
    omega
  rw [hscan, hfuel, hrun]
  -- each step took in a character, so the fuel is enough for the last two steps
  cases ok with
  | true =>
    have hrests : Rests s _ := hs
    have hlast := run_end hrests (by simp [Cursor.rest_skip]) ((w ++ ['\n']).length - m)
    rw [if_pos rfl, hlast]
    simp [opening]
  | false =>
    obtain ⟨hdone, e, hstep⟩ := hs
    refine ⟨s.tokens.toList.take s.settled, e, ?_, fun hmem => ?_⟩
    · simp [run, hdone, hstep]
    · simpa using hend (by simpa using List.mem_of_mem_take hmem)

end

/-- The tokens of a mapping that makes up a document. -/
theorem scan_print {fields : List (String × Value)} {m : Nat} (hne : fields ≠ [])
    (hp : ∀ f ∈ fields, f.2.Plain) (hd : ∀ f ∈ fields, f.2.Within m) (hm : 2 * m + 2 < width) :
    if fits (.map (Value.entries fields)) then
      Token.scan (print (.map (Value.entries fields))).toList =
        tokensOf false (.map (Value.entries fields)) ++ [.streamEnd]
    else Broken (Token.scan (print (.map (Value.entries fields))).toList) := by
  have hreturns : ∀ f ∈ fields, Returns 0 f.2 := fun f hf =>
    returns_of_plain (hp f hf) (hd f hf) (by omega)
  obtain ⟨w, hw⟩ := written_entries hne (by decide) hreturns (Pen.opens_fresh Pen.fresh_start)
  obtain ⟨f, fs, rfl⟩ := List.exists_cons_of_ne_nil hne
  have hprint : (print (.map (Value.entries (f :: fs)))).toList = w ++ ['\n'] := by
    have hwrites := hw.writes.trans (Pen.writes_indent_break (n := 0) (.inl hw.solid.indented))
    have hnode : writeNode none false {} (.map (Value.entries (f :: fs))) =
        writeEntries 0 {} (Value.entries (f :: fs)) := writeNode_map none false {} _ _
    simp only [print, hnode, isOpenEnded, Bool.false_eq_true, if_false, Pen.text]
    rw [hwrites]
    simp
  have hscan := scan_block hw
  rw [hprint]
  simpa [fits, Value.every, tokensOf, Value.entries] using hscan

end RouteBook.Yaml
