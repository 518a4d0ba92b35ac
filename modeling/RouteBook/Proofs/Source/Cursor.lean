import Mathlib.Data.Bool.AllAny
import Mathlib.Data.List.Basic
import RouteBook.Proofs.Utf8
import RouteBook.Source.Cursor

/-! Reading a text of characters: how parsers run one after the other, and what is passed before a
token. -/
namespace RouteBook

namespace Text

theorem strayText_nil : strayText [] = [] := by rw [strayText]

theorem pieceText_ofChars (s : List Char) : pieceText (ofChars s) = s := by
  induction s with
  | nil => exact strayText_nil
  | cons c s ih =>
    change strayText [] ++ c :: pieceText (ofChars s) = _
    rw [strayText_nil, ih, List.nil_append]

theorem ofChars_append (s t : List Char) : ofChars (s ++ t) = ofChars s ++ ofChars t := by
  rw [ofChars, ofChars, ofChars, List.map_append]

def width (s : List Char) : Nat := (encode s).length

@[simp] theorem width_nil : width [] = 0 := rfl

@[simp] theorem width_cons (c : Char) (s : List Char) : width (c :: s) = c.utf8Size + width s := by
  rw [width, encode_cons, List.length_append, String.length_utf8EncodeChar, width]

@[simp] theorem width_append (s t : List Char) : width (s ++ t) = width s + width t := by
  rw [width, encode_append, List.length_append, width, width]

end Text

namespace Source
variable {α β : Type} {p q : Parse α} {f : α → Parse β} {c : Cursor}

section Running

@[simp] theorem bind_apply (p : Parse α) (f : α → Parse β) (c : Cursor) :
    (p >>= f) c = (p c).bind fun r => f r.1 r.2 := by
  change ((p c).bind fun x => _) = _
  rfl

@[simp] theorem pure_apply (a : α) (c : Cursor) : (pure a : Parse α) c = some (a, c) := rfl

@[simp] theorem failure_apply (c : Cursor) : (failure : Parse α) c = none := rfl

@[simp] theorem get_apply (c : Cursor) : (get : Parse Cursor) c = some (c, c) := rfl

@[simp] theorem modify_apply (g : Cursor → Cursor) (c : Cursor) :
    (modify g : Parse Unit) c = some ((), g c) := rfl

@[simp] theorem discard_apply (p : Parse α) (c : Cursor) :
    (discard p) c = (p c).map fun r => ((), r.2) := by
  change ((p c).bind fun x => _) = _
  cases p c <;> rfl

@[simp] theorem map_apply (g : α → β) (p : Parse α) (c : Cursor) :
    (g <$> p) c = (p c).map fun r => (g r.1, r.2) := by
  change ((p c).bind fun x => _) = _
  cases p c <;> rfl

@[simp] theorem orElse_apply (p q : Parse α) (c : Cursor) :
    (p <|> q) c = (p c).or (q c) := by
  change (StateT.orElse p (fun _ => q)) c = _
  cases h : p c <;> simp [StateT.orElse, h]

@[simp] theorem ite_apply {b : Prop} [Decidable b] (p q : Parse α) (c : Cursor) :
    (if b then p else q) c = if b then p c else q c := by
  split <;> rfl

@[simp] theorem optionally_apply (p : Parse α) (c : Cursor) :
    optionally p c = some (match p c with
      | some r => (some r.1, r.2)
      | none => (none, c)) := by
  rw [optionally]
  cases h : p c <;> simp [h]

@[simp] theorem wouldParse_apply (p : Parse α) (c : Cursor) :
    wouldParse p c = some ((p c).isSome, c) := rfl

theorem manyUpTo_none (h : p c = none) (n : Nat) : manyUpTo p n c = some ([], c) := by
  cases n with
  | zero => rfl
  | succ n => simp [manyUpTo, h]

theorem manyUpTo_some {a : α} {d : Cursor} (h : p c = some (a, d)) (n : Nat) :
    manyUpTo p (n + 1) c = (manyUpTo p n d).map fun r => (a :: r.1, r.2) := by
  simp only [manyUpTo, bind_apply, optionally_apply, h, Option.bind_some]
  cases manyUpTo p n d <;> rfl

theorem many_none (h : p c = none) : many p c = some ([], c) := by
  simp [many, manyUpTo_none h]

end Running

theorem startsWith_ofChars (s : List Char) (token : String) :
    startsWith (Text.ofChars s) token = token.toList.isPrefixOf s := by
  rw [startsWith, Text.ofChars, Text.ofChars]
  generalize token.toList = t
  induction t generalizing s with
  | nil => rfl
  | cons a t ih =>
    cases s with
    | nil => rfl
    | cons b s =>
      have hbeq : (Text.Piece.char a == Text.Piece.char b) = (a == b) := by
        rw [Bool.eq_iff_iff]
        simp
      rw [List.map_cons, List.map_cons, List.isPrefixOf_cons_cons, List.isPrefixOf_cons_cons, hbeq,
        ih]

/-- Whether a token cannot stand before a character of its own: it starts otherwise. -/
def misses (token : String) (a : Char) : Bool :=
  match token.toList with
  | [] => false
  | b :: _ => a != b

theorem startsWith_of_misses {token : String} {a : Char} (h : misses token a = true)
    (s : List Char) : startsWith (Text.ofChars (a :: s)) token = false := by
  rw [startsWith_ofChars]
  unfold misses at h
  split at h
  · cases h
  · next b t ht =>
    have hne : (b == a) = false := beq_eq_false_iff_ne.mpr (bne_iff_ne.mp h).symm
    rw [ht, List.isPrefixOf_cons_cons, hne, Bool.false_and]

theorem startsWith_sign {token : String} {a : Char} (h : token.toList = [a]) (s : List Char) :
    startsWith (Text.ofChars (a :: s)) token = true := by
  rw [startsWith_ofChars, h]
  simp

theorem find?_startsWith {ps : List Text.Piece} {tokens : List String}
    (h : ∀ token ∈ tokens, startsWith ps token = false) :
    tokens.find? (startsWith ps ·) = none := by
  rw [List.find?_eq_none]
  intro token ht
  rw [h token ht]
  exact Bool.false_ne_true

theorem headIs_ofChars (p : Char → Bool) (s : List Char) :
    headIs p (Text.ofChars s) = s.head?.any p := by
  cases s <;> rfl

namespace Cursor

def on (c : Cursor) (s : List Char) (pos : Nat) : Cursor := { c with rest := Text.ofChars s, pos }

@[simp] theorem rest_on (c : Cursor) (s : List Char) (pos : Nat) :
    (c.on s pos).rest = Text.ofChars s := rfl

@[simp] theorem pos_on (c : Cursor) (s : List Char) (pos : Nat) : (c.on s pos).pos = pos := rfl

@[simp] theorem comments_on (c : Cursor) (s : List Char) (pos : Nat) :
    (c.on s pos).comments = c.comments := rfl

theorem advance_on (c : Cursor) (w s : List Char) (pos : Nat) :
    (c.on (w ++ s) pos).advance w.length = c.on s (pos + Text.width w) := by
  induction w generalizing pos with
  | nil => rfl
  | cons a w ih =>
    change (c.on (w ++ s) (pos + a.utf8Size)).advance w.length = _
    rw [ih, Text.width_cons, Nat.add_assoc]

end Cursor

def Solid (s : List Char) : Prop := ∀ a ∈ s.head?, isSpace a = false ∧ a ≠ '/'

def Gap (ws : List Char) : Prop := ∀ a ∈ ws, isSpace a = true

theorem solid_nil : Solid [] := by simp [Solid]

theorem solid_cons {a : Char} (h : isSpace a = false ∧ a ≠ '/') (s : List Char) :
    Solid (a :: s) := by
  intro b hb
  obtain rfl : a = b := by simpa using hb
  exact h

theorem gap_nil : Gap [] := by simp [Gap]

theorem gap_cons {a : Char} (h : isSpace a = true) : Gap [a] := by simpa [Gap] using h

section Skipping
variable {ws s : List Char} {pos : Nat}

theorem takeWhile_gap (hw : Gap ws) (hs : ∀ a ∈ s.head?, isSpace a = false) :
    ((Text.ofChars (ws ++ s)).takeWhile (isA isSpace)).length = ws.length := by
  induction ws with
  | nil =>
    cases s with
    | nil => rfl
    | cons a s => simp [Text.ofChars, isA, hs a (by simp)]
  | cons a ws ih =>
    have ha := hw a (by simp)
    have hmore := ih fun x hx => hw x (by simp [hx])
    simpa [Text.ofChars, isA, ha] using hmore

theorem skipSpace_on (c : Cursor) (hw : Gap ws) (hs : ∀ a ∈ s.head?, isSpace a = false)
    (pos : Nat) : (c.on (ws ++ s) pos).skipSpace = c.on s (pos + Text.width ws) := by
  rw [Cursor.skipSpace, Cursor.rest_on, takeWhile_gap hw hs, Cursor.advance_on]

theorem commentLength?_solid (hs : Solid s) : commentLength? (Text.ofChars s) = none := by
  cases s with
  | nil => rfl
  | cons a s =>
    have hne : a ≠ '/' := (hs a (by simp)).2
    have hline : misses "//" a = true := bne_iff_ne.mpr hne
    have hblock : misses "/*" a = true := bne_iff_ne.mpr hne
    rw [commentLength?, startsWith_of_misses hline, startsWith_of_misses hblock]
    rfl

theorem comment?_solid (c : Cursor) (hw : Gap ws) (hs : Solid s) (pos : Nat) :
    (c.on (ws ++ s) pos).comment? = none := by
  simp only [Cursor.comment?, skipSpace_on c hw (fun a ha => (hs a ha).1), Cursor.rest_on,
    commentLength?_solid hs]

theorem skipExtras_solid (c : Cursor) (hw : Gap ws) (hs : Solid s) (pos : Nat) :
    (c.on (ws ++ s) pos).skipExtras = c.on s (pos + Text.width ws) := by
  rw [Cursor.skipExtras, comment?_solid c hw hs, skipSpace_on c hw fun a ha => (hs a ha).1]

theorem skipExtras_self (c : Cursor) (hs : Solid s) (pos : Nat) :
    (c.on s pos).skipExtras = c.on s pos := skipExtras_solid c gap_nil hs pos

end Skipping

def Cursor.noting (c : Cursor) (stop : Nat) (text : List Char) : Cursor :=
  { c with comments := .comment stop (String.ofList text) :: c.comments }

section Comments
variable {ws inner : List Char}

theorem blockCommentEnd?_on (hfree : ¬ ['*', '/'] <:+: inner) (hzero : '\x00' ∉ inner)
    (s : List Char) :
    blockCommentEnd? (Text.ofChars (inner ++ '*' :: '/' :: s)) = some (inner.length + 2) := by
  induction inner with
  | nil => rfl
  | cons a inner ih =>
    have hmore := ih (fun h => hfree (h.trans (List.infix_cons (List.infix_refl _))))
      (fun h => hzero (List.mem_cons_of_mem a h))
    have hopen : startsWith (Text.ofChars (a :: (inner ++ '*' :: '/' :: s))) "*/" = false := by
      rw [startsWith_ofChars, Bool.eq_false_iff]
      intro hp
      obtain ⟨t, ht⟩ := List.isPrefixOf_iff_prefix.mp hp
      -- The slash would be the next character of the comment.
      cases inner with
      | nil => simp at ht
      | cons b inner =>
        obtain ⟨rfl, rfl, -⟩ : '*' = a ∧ '/' = b ∧ _ := by simpa using ht
        exact hfree ⟨[], inner, rfl⟩
    have hchar : isNotA (fun _ => false) (.char a) = true := by
      have hne : a ≠ '\x00' := fun he => hzero (he ▸ List.mem_cons_self)
      simp [isNotA, hne]
    rw [List.cons_append]
    change (if startsWith (Text.ofChars (a :: (inner ++ '*' :: '/' :: s))) "*/" then some 2
      else if isNotA (fun _ => false) (.char a) then
        (blockCommentEnd? (Text.ofChars (inner ++ '*' :: '/' :: s))).map (· + 1)
      else none) = _
    rw [hopen, hchar, hmore]
    simp only [Bool.false_eq_true, if_false, if_true, Option.map_some, List.length_cons,
      Nat.add_right_comm]

def block (inner : List Char) : List Char := '/' :: '*' :: (inner ++ ['*', '/'])

theorem commentLength?_block (hfree : ¬ ['*', '/'] <:+: inner) (hzero : '\x00' ∉ inner)
    (s : List Char) :
    commentLength? (Text.ofChars (block inner ++ s)) = some (block inner).length := by
  have hline : startsWith (Text.ofChars (block inner ++ s)) "//" = false := by
    rw [startsWith_ofChars]
    rfl
  have hblock : startsWith (Text.ofChars (block inner ++ s)) "/*" = true := by
    rw [startsWith_ofChars]
    rfl
  have hdrop : (Text.ofChars (block inner ++ s)).drop 2 =
      Text.ofChars (inner ++ '*' :: '/' :: s) := by
    simp [block, Text.ofChars]
  rw [commentLength?, hline, hblock, hdrop, blockCommentEnd?_on hfree hzero]
  simp [block]

theorem comment?_block (c : Cursor) (hw : Gap ws) (hfree : ¬ ['*', '/'] <:+: inner)
    (hzero : '\x00' ∉ inner) (s : List Char) (pos : Nat) :
    (c.on (ws ++ (block inner ++ s)) pos).comment? =
      some ((c.noting (pos + Text.width ws + Text.width (block inner)) (block inner)).on s
        (pos + Text.width ws + Text.width (block inner))) := by
  have hslash : ∀ a ∈ (block inner ++ s).head?, isSpace a = false := by
    simp [block]
    decide
  have hskip := skipSpace_on c hw hslash pos
  have hlen := commentLength?_block hfree hzero s
  have hfull : 0 < (block inner).length ∧ Text.ofChars (block inner ++ s) ≠ [] := by
    simp [block, Text.ofChars]
  have htake : (Text.ofChars (block inner ++ s)).take (block inner).length =
      Text.ofChars (block inner) := by
    simp [Text.ofChars]
  simp only [Cursor.comment?, hskip, Cursor.rest_on, hlen, if_pos hfull, Cursor.takeComment,
    Cursor.advance_on, htake, Text.pieceText_ofChars]
  rfl

theorem skipExtras_block (c : Cursor) {vs s : List Char} (hw : Gap ws)
    (hfree : ¬ ['*', '/'] <:+: inner) (hzero : '\x00' ∉ inner) (hv : Gap vs) (hs : Solid s)
    (pos : Nat) :
    (c.on (ws ++ (block inner ++ (vs ++ s))) pos).skipExtras =
      (c.noting (pos + Text.width ws + Text.width (block inner)) (block inner)).on s
        (pos + Text.width ws + Text.width (block inner) + Text.width vs) := by
  have hcomment := comment?_block c hw hfree hzero (vs ++ s) pos
  rw [Cursor.skipExtras]
  split
  · next d hd =>
    rw [hcomment] at hd
    rw [← Option.some.inj hd]
    exact skipExtras_solid _ hv hs _
  · next hd =>
    rw [hcomment] at hd
    cases hd

end Comments

section Tokens
variable {ws s : List Char} {a : Char} {token : String}

theorem accept_no (c : Cursor) (hw : Gap ws) (hs : Solid (a :: s)) (ht : misses token a = true)
    (pos : Nat) :
    accept token (c.on (ws ++ a :: s) pos) = some (false, c.on (ws ++ a :: s) pos) := by
  simp only [accept, skipExtras_solid c hw hs, Cursor.rest_on, startsWith_of_misses ht]
  rfl

theorem accept_yes (c : Cursor) (hs : Solid (a :: s)) (ht : token.toList = [a]) (pos : Nat) :
    accept token (c.on (a :: s) pos) = some (true, c.on s (pos + a.utf8Size)) := by
  have hskip := skipExtras_self c hs pos
  have hlen : token.length = 1 := by rw [← String.length_toList, ht]; rfl
  simp only [accept, hskip, Cursor.rest_on, startsWith_sign ht, if_true, hlen]
  rfl

theorem expect_no (c : Cursor) (hw : Gap ws) (hs : Solid (a :: s)) (ht : misses token a = true)
    (pos : Nat) : expect token (c.on (ws ++ a :: s) pos) = none := by
  simp [expect, accept_no c hw hs ht]

theorem expect_yes (c : Cursor) (hs : Solid (a :: s)) (ht : token.toList = [a]) (pos : Nat) :
    expect token (c.on (a :: s) pos) = some ((), c.on s (pos + a.utf8Size)) := by
  simp [expect, accept_yes c hs ht]

theorem sees_no (c : Cursor) (hw : Gap ws) (hs : Solid (a :: s)) (ht : misses token a = true)
    (pos : Nat) : sees token (c.on (ws ++ a :: s) pos) = some (false, c.on (ws ++ a :: s) pos) := by
  simp only [sees, skipExtras_solid c hw hs, Cursor.rest_on, startsWith_of_misses ht]

def Fresh (s : List Char) : Prop := Solid s ∧ ∀ a ∈ s.head?, a ≠ '<' ∧ a ≠ '-'

theorem pageCommentLength?_fresh (h : Fresh s) : pageCommentLength? (Text.ofChars s) = none := by
  cases s with
  | nil => rfl
  | cons a s =>
    have hne := h.2 a (by simp)
    have hopen : misses "<!--" a = true := bne_iff_ne.mpr hne.1
    have hclose : misses "-->" a = true := bne_iff_ne.mpr hne.2
    rw [pageCommentLength?, startsWith_of_misses hopen, startsWith_of_misses hclose]
    rfl

theorem skipToOperand_of_fresh {c d : Cursor} {pos : Nat} (h : c.skipExtras = d.on s pos)
    (hs : Fresh s) (fuel : Nat) : c.skipToOperand fuel = d.on s pos := by
  cases fuel with
  | zero => exact h
  | succ fuel =>
    simp only [Cursor.skipToOperand, h, Cursor.rest_on, pageCommentLength?_fresh hs]

theorem tokenStart_of_fresh {c d : Cursor} {pos : Nat} (h : c.skipExtras = d.on s pos)
    (hs : Fresh s) : tokenStart c = some (pos, d.on s pos) := by
  simp [tokenStart, skipToOperand_of_fresh h hs]

theorem tokenStart_on (c : Cursor) (hw : Gap ws) (hs : Fresh s) (pos : Nat) :
    tokenStart (c.on (ws ++ s) pos) = some (pos + Text.width ws, c.on s (pos + Text.width ws)) :=
  tokenStart_of_fresh (skipExtras_solid c hw hs.1 pos) hs

theorem tokenStart_self (c : Cursor) (hs : Fresh s) (pos : Nat) :
    tokenStart (c.on s pos) = some (pos, c.on s pos) := tokenStart_on c gap_nil hs pos

end Tokens

end Source

end RouteBook
