import Mathlib.Data.List.Basic
import RouteBook.Html.Basic

/-! Reading a page: its tags, and between them the characters that it shows. -/
namespace RouteBook.Html

/-- What a page is made of for its reader. -/
inductive Piece where
  | tag (s : String)
  | char (c : Char)
  /-- A tag that the page leaves open. -/
  | torn (s : String)
deriving Repr, DecidableEq

/-- The pieces of a text, inside a tag of which some is read, or outside of tags. -/
def read : Option (List Char) → List Char → List Piece
  | none, [] => []
  | some t, [] => [.torn (String.ofList t)]
  | none, '&' :: 'a' :: 'm' :: 'p' :: ';' :: s => .char '&' :: read none s
  | none, '&' :: 'l' :: 't' :: ';' :: s => .char '<' :: read none s
  | none, '&' :: 'g' :: 't' :: ';' :: s => .char '>' :: read none s
  | none, '&' :: '#' :: '3' :: '4' :: ';' :: s => .char '"' :: read none s
  | none, '&' :: '#' :: '3' :: '9' :: ';' :: s => .char '\'' :: read none s
  | none, c :: s => if c = '<' then read (some ['<']) s else .char c :: read none s
  | some t, c :: s =>
    if c = '>' then .tag (String.ofList (t ++ ['>'])) :: read none s
    else read (some (t ++ [c])) s

-- The equations of this function are made here once, so that no theorem waits for them.
section
attribute [local simp] read
end

def pieces (page : String) : List Piece := read none page.toList

def Piece.tag? : Piece → Option String
  | tag s => some s
  | _ => none

def Piece.char? : Piece → Option Char
  | char c => some c
  | _ => none

def tags (ps : List Piece) : List String := ps.filterMap Piece.tag?

/-- The characters that pieces show, their tags removed. -/
def shown (ps : List Piece) : String := String.ofList (ps.filterMap Piece.char?)

def chars (s : String) : List Piece := s.toList.map .char

@[simp] theorem tags_append (ps qs : List Piece) : tags (ps ++ qs) = tags ps ++ tags qs :=
  List.filterMap_append

@[simp] theorem tags_cons_tag (s : String) (ps : List Piece) :
    tags (.tag s :: ps) = s :: tags ps := rfl

@[simp] theorem tags_nil : tags [] = [] := rfl

@[simp] theorem tags_chars (s : String) : tags (chars s) = [] := by
  simp [tags, chars, List.filterMap_map, Function.comp_def, Piece.tag?]

@[simp] theorem shown_chars (s : String) : shown (chars s) = s := by
  simp [shown, chars, List.filterMap_map, Function.comp_def, Piece.char?]

theorem tags_flatMap {α : Type} (f : α → List Piece) (xs : List α) :
    tags (xs.flatMap f) = xs.flatMap fun x => tags (f x) :=
  List.filterMap_flatMap

theorem read_plain {c : Char} (hand : c ≠ '&') (hlt : c ≠ '<') (rest : List Char) :
    read none (c :: rest) = .char c :: read none rest := by
  rw [read]
  · rw [if_neg hlt]
  all_goals
    intro s h
    exact absurd h hand

theorem read_escapeChar (c : Char) (rest : List Char) :
    read none (escapeChar c ++ rest) = .char c :: read none rest := by
  by_cases hand : c = '&'
  · subst hand; rfl
  by_cases hlt : c = '<'
  · subst hlt; rfl
  by_cases hgt : c = '>'
  · subst hgt; rfl
  by_cases hdouble : c = '"'
  · subst hdouble; rfl
  by_cases hsingle : c = '\''
  · subst hsingle; rfl
  have hc : escapeChar c = [c] := by
    rw [escapeChar] <;> assumption
  rw [hc, List.singleton_append, read_plain hand hlt]

/-- Escaped text is shown as it was, whatever it holds. -/
theorem read_escape (s : String) (rest : List Char) :
    read none ((escape s).toList ++ rest) = chars s ++ read none rest := by
  rw [escape, String.toList_ofList, chars]
  induction s.toList with
  | nil => rfl
  | cons c cs ih =>
    rw [List.flatMap_cons, List.append_assoc, read_escapeChar, ih]
    rfl

theorem pieces_escape (s : String) : pieces (escape s) = chars s := by
  have h := read_escape s []
  rwa [List.append_nil, read, List.append_nil] at h

theorem not_mem_escapeChar {x : Char} (hx : x = '>' ∨ x = '"') (c : Char) :
    x ∉ escapeChar c := by
  unfold escapeChar
  split
  · rcases hx with rfl | rfl <;> decide
  · rcases hx with rfl | rfl <;> decide
  · rcases hx with rfl | rfl <;> decide
  · rcases hx with rfl | rfl <;> decide
  · rcases hx with rfl | rfl <;> decide
  · rcases hx with rfl | rfl <;> simp_all [eq_comm]

/-- Escaped text ends neither a tag nor an attribute. -/
theorem not_mem_escape {x : Char} (hx : x = '>' ∨ x = '"') (s : String) :
    x ∉ (escape s).toList := by
  rw [escape, String.toList_ofList, List.mem_flatMap]
  rintro ⟨c, -, hc⟩
  exact not_mem_escapeChar hx c hc

theorem read_inside {s : List Char} (h : '>' ∉ s) (t rest : List Char) :
    read (some t) (s ++ rest) = read (some (t ++ s)) rest := by
  induction s generalizing t with
  | nil => simp
  | cons c s ih =>
    obtain ⟨hc, hs⟩ := not_or.mp (mt List.mem_cons.mpr h)
    rw [List.cons_append, read, if_neg (Ne.symm hc), ih hs, List.append_assoc,
      List.singleton_append]

theorem read_tag {s : List Char} (h : '>' ∉ s) (rest : List Char) :
    read none ('<' :: (s ++ '>' :: rest)) =
      .tag (String.ofList ('<' :: (s ++ ['>']))) :: read none rest := by
  have hopen : read none ('<' :: (s ++ '>' :: rest)) = read (some ['<']) (s ++ '>' :: rest) := rfl
  rw [hopen, read_inside h, read, if_pos rfl, List.append_assoc]
  rfl

def isTag (s : String) : Bool :=
  s.toList == '<' :: (s.toList.tail.dropLast ++ ['>']) && !s.toList.tail.dropLast.contains '>'

theorem read_isTag {s : String} (h : isTag s = true) (rest : List Char) :
    read none (s.toList ++ rest) = .tag s :: read none rest := by
  simp only [isTag, Bool.and_eq_true, beq_iff_eq, Bool.not_eq_true', List.contains_eq_mem,
    decide_eq_false_iff_not] at h
  have ht := read_tag h.2 rest
  rw [← h.1, String.ofList_toList] at ht
  rw [← ht, h.1]
  simp

theorem read_text {s : List Char} (hand : '&' ∉ s) (hlt : '<' ∉ s) (rest : List Char) :
    read none (s ++ rest) = s.map .char ++ read none rest := by
  induction s with
  | nil => rfl
  | cons c s ih =>
    obtain ⟨ha, hand⟩ := not_or.mp (mt List.mem_cons.mpr hand)
    obtain ⟨hl, hlt⟩ := not_or.mp (mt List.mem_cons.mpr hlt)
    rw [List.cons_append, read_plain (Ne.symm ha) (Ne.symm hl), ih hand hlt]
    rfl

def written (parts : List Part) : List Char := parts.flatMap fun p => p.render.toList

theorem toList_renderParts (parts : List Part) : (renderParts parts).toList = written parts := by
  simp [renderParts, written, String.toList_join, List.flatMap_map]

/-- Parts of a page that begin and end outside of tags, and what is read there. -/
def Reads (parts : List Part) (ps : List Piece) : Prop :=
  ∀ rest, read none (written parts ++ rest) = ps ++ read none rest

theorem Reads.nil : Reads [] [] := fun _ => rfl

theorem Reads.append {xs ys : List Part} {ps qs : List Piece} (hx : Reads xs ps)
    (hy : Reads ys qs) : Reads (xs ++ ys) (ps ++ qs) := by
  intro rest
  rw [written, List.flatMap_append, List.append_assoc, List.append_assoc, ← hy rest]
  exact hx _

theorem Reads.flatMap {α : Type} {f : α → List Part} {g : α → List Piece}
    (h : ∀ x, Reads (f x) (g x)) (xs : List α) : Reads (xs.flatMap f) (xs.flatMap g) := by
  induction xs with
  | nil => exact .nil
  | cons x xs ih => exact (h x).append ih

theorem Reads.markup {s : String} {ps : List Piece}
    (h : ∀ rest, read none (s.toList ++ rest) = ps ++ read none rest) : Reads [.markup s] ps := by
  intro rest
  simpa [written, Part.render] using h rest

theorem Reads.text (s : String) : Reads [.text s] (chars s) := by
  intro rest
  simpa [written, Part.render] using read_escape s rest

theorem Reads.pieces {parts : List Part} {ps : List Piece} (h : Reads parts ps) :
    pieces (renderParts parts) = ps := by
  have hr := h []
  rwa [List.append_nil, read, List.append_nil, ← toList_renderParts] at hr

end RouteBook.Html
