import RouteBook.Yaml.Pen

/-! What the pen writes on the way to a column, and how it stands afterwards. -/
namespace RouteBook.Yaml.Pen
variable {p q r : Pen} {w v : List Char} {n : Nat}

def Writes (p q : Pen) (w : List Char) : Prop := q.out = w.reverse ++ p.out

theorem Writes.refl (p : Pen) : Writes p p [] := rfl

theorem Writes.trans (h : Writes p q w) (h' : Writes q r v) : Writes p r (w ++ v) := by
  unfold Writes at *
  rw [h', h, List.reverse_append, List.append_assoc]

theorem writes_write (p : Pen) (s : List Char) : Writes p (p.write s) s := rfl

/-- The last thing written was no blank, and the line is no longer only indentation. -/
structure Solid (p : Pen) : Prop where
  blank : p.blank = false
  indented : p.indented = false

structure Fresh (n : Nat) (p : Pen) : Prop where
  column : p.column = n
  blank : p.blank = true
  indented : p.indented = true

theorem solid_solid (p : Pen) : Solid p.solid := ⟨rfl, rfl⟩

theorem solid_mark (p : Pen) (s : List Char) (needsBlank : Bool) :
    Solid (p.mark s needsBlank false false) := ⟨rfl, by simp [mark]⟩

theorem fresh_start : Fresh 0 {} := ⟨rfl, rfl, rfl⟩

theorem indent_fresh (h : Fresh n p) : p.indent n = p := by
  simp [indent, h.column, h.blank, h.indented]

/-- A new line, where the text before does not end one or reaches too far. -/
theorem indent_break (h : p.indented = false ∨ n < p.column) :
    p.indent n =
      { out := List.replicate n ' ' ++ '\n' :: p.out, column := n, blank := true,
        indented := true } := by
  have hbreak : (!p.indented || decide (n < p.column) || (p.column == n && !p.blank)) = true := by
    rcases h with h | h <;> simp [h]
  rw [indent, if_pos hbreak]
  cases n with
  | zero => rfl
  | succ n => simp [lineBreak, write]

theorem writes_indent_break (h : p.indented = false ∨ n < p.column) :
    Writes p (p.indent n) ('\n' :: List.replicate n ' ') := by
  simp [Writes, indent_break h]

structure Opens (n : Nat) (p : Pen) (g : List Char) : Prop where
  writes : Writes p (p.indent n) g
  fresh : Fresh n (p.indent n)

theorem opens_line (h : p.indented = false) : Opens n p ('\n' :: List.replicate n ' ') := by
  refine ⟨writes_indent_break (.inl h), ?_⟩
  rw [indent_break (.inl h)]
  exact ⟨rfl, rfl, rfl⟩

theorem opens_fresh (h : Fresh n p) : Opens n p [] := by
  refine ⟨?_, ?_⟩ <;> rw [indent_fresh h]
  · exact .refl p
  · exact h

theorem fresh_lineBreak (p : Pen) (ch : Char) : Fresh 0 (p.lineBreak ch) := ⟨rfl, rfl, rfl⟩

theorem writes_lineBreak (p : Pen) (ch : Char) : Writes p (p.lineBreak ch) [ch] := rfl

theorem writes_indent_start (h : Fresh 0 p) (n : Nat) :
    Writes p (p.indent n) (List.replicate n ' ') := by
  cases n with
  | zero => simp [Writes, indent, h.column, h.blank, h.indented]
  | succ n => simp [Writes, indent, h.column, h.blank, h.indented, write]

theorem opens_next (hi : p.indented = true) (hc : p.column = n + 1) : Opens (n + 2) p [' '] := by
  have hindent : p.indent (n + 2) =
      { p with out := ' ' :: p.out, column := n + 2, blank := true } := by
    simp [indent, hi, hc, write]
  refine ⟨by simp [Writes, hindent], ?_⟩
  rw [hindent]
  exact ⟨rfl, rfl, hi⟩

/-- The blank before a mark, where one is needed. -/
def lead (p : Pen) : List Char := if p.blank then [] else [' ']

theorem writes_mark (p : Pen) (s : List Char) (opens keeps : Bool) :
    Writes p (p.mark s true opens keeps) (p.lead ++ s) := by
  cases hb : p.blank <;> simp [Writes, mark, lead, hb, write]

theorem writes_mark_close (p : Pen) (s : List Char) (opens keeps : Bool) :
    Writes p (p.mark s false opens keeps) s := by
  simp [Writes, mark, write]

theorem lead_fresh (h : Fresh n p) : p.lead = [] := by
  simp [lead, h.blank]

end RouteBook.Yaml.Pen
