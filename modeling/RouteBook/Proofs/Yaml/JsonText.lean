import RouteBook.Config.Load
import RouteBook.Proofs.Yaml.Flow

/-! Documents of the JSON grammar scanned as YAML. White space, keys, strings and numbers have to
keep to rules of their own; under these rules the tokens of a document follow its tree. -/
namespace RouteBook.Yaml
open Json (Tree Items Members Document Spelling Numeral codePoints quotedText)
open Config (unifyLineEnds)
open Outcome (ok_bind)

/-- A string of readable characters without surrogate pairs spelled by their halves. -/
def isPlainText (s : List Spelling) : Bool :=
  s.all Scan.isPlainSpelling && decide (Json.joinHalves (codePoints s) = codePoints s)

/-- The rules of spelling under which both languages read a document alike: a key and the blanks
before its colon stand on one line and are not too long, and no white space is a tab. -/
def shared : Json.Rules where
  number := isPlainNumber
  string := isPlainText
  key k middle := isPlainText k && middle.1.all (· == ' ') &&
    decide ((quotedText k).length + middle.1.length ≤ keyReach)
  gap g := !g.1.contains '\t'

mutual
def treeTokens : Tree → List Token
  | .null => [.scalar "null" true]
  | .bool true => [.scalar "true" true]
  | .bool false => [.scalar "false" true]
  | .number n => [.scalar (String.ofList n.text) true]
  | .string s => [.ofCodes (codePoints s)]
  | .emptyList _ => [.flowSequenceStart, .flowSequenceEnd]
  | .list items => .flowSequenceStart :: (itemsTokens items ++ [.flowSequenceEnd])
  | .emptyMap _ => [.flowMappingStart, .flowMappingEnd]
  | .map members => .flowMappingStart :: (membersTokens members ++ [.flowMappingEnd])
def itemsTokens : Items → List Token
  | .last _ v _ => treeTokens v
  | .next _ v _ rest => treeTokens v ++ .flowEntry :: itemsTokens rest
def membersTokens : Members → List Token
  | .last _ key _ _ v _ => [.key, .ofCodes (codePoints key), .value] ++ treeTokens v
  | .next _ key _ _ v _ rest =>
    [.key, .ofCodes (codePoints key), .value] ++ (treeTokens v ++ .flowEntry :: membersTokens rest)
end

namespace Scan
variable {s : Scan} {T : List Token} {level : Nat} {g rest : List Char}

theorem flat_unifyLineEnds (hg : g.all Json.isSpace = true) (ht : g.contains '\t' = false) :
    (unifyLineEnds g).all isFlat = true := by
  fun_induction unifyLineEnds g with
  | case1 g ih =>
    simp only [List.all_cons, Bool.and_eq_true] at hg
    exact ih hg.2.2 (by simpa using ht)
  | case2 g _ ih =>
    simp only [List.all_cons, Bool.and_eq_true] at hg
    exact ih hg.2 (by simpa using ht)
  | case3 c g _ hc ih =>
    simp only [List.all_cons, Bool.and_eq_true] at hg
    simp only [List.contains_cons, Bool.or_eq_false_iff, beq_eq_false_iff_ne] at ht
    have hflat : isFlat c = true := by
      simpa [Json.isSpace, isFlat, Ne.symm ht.1, show c ≠ '\r' from hc] using hg.1
    rw [List.all_cons, hflat, ih hg.2 ht.2]
    rfl
  | case4 => rfl

theorem unifyLineEnds_solid {w : List Char} (hw : w.all (· != '\r') = true) (rest : List Char) :
    unifyLineEnds (w ++ rest) = w ++ unifyLineEnds rest := by
  induction w with
  | nil => rfl
  | cons c w ih =>
    rw [List.all_cons, Bool.and_eq_true, bne_iff_ne] at hw
    rw [List.cons_append, unifyLineEnds, ih hw.2]
    · rfl
    all_goals simp [hw.1]

theorem unifyLineEnds_blanks (hg : g.all (· == ' ') = true) : unifyLineEnds g = g := by
  have hsolid : g.all (· != '\r') = true := by
    rw [List.all_eq_true] at hg ⊢
    intro x hx
    rw [beq_iff_eq.mp (hg x hx)]
    decide
  have happend := unifyLineEnds_solid hsolid []
  simpa [unifyLineEnds] using happend

/-- Line ends in a gap are unified apart from what follows, unless that starts with a line feed. -/
theorem unifyLineEnds_gap (h : rest.head? ≠ some '\n') :
    unifyLineEnds (g ++ rest) = unifyLineEnds g ++ unifyLineEnds rest := by
  fun_induction unifyLineEnds g with
  | case1 g ih => simp [unifyLineEnds, ih]
  | case2 g hg ih =>
    rw [List.cons_append, unifyLineEnds, ih]
    · rfl
    · intro t ht
      cases g with
      | nil => exact h (by simpa using congrArg List.head? ht)
      | cons x g => exact hg g (by rw [(List.cons.inj ht).1])
  | case3 c g _ hc ih =>
    rw [List.cons_append, unifyLineEnds, ih]
    · rfl
    all_goals simp [show c ≠ '\r' from hc]
  | case4 => rfl

theorem flat_gap {gap : Json.Gap} (h : shared.gap gap = true) :
    (unifyLineEnds gap.1).all isFlat = true :=
  flat_unifyLineEnds gap.2 (by simpa [shared] using h)

theorem word_number (n : Numeral) :
    n.text.all isWordChar = true ∧ startsWord n.text = true := by
  refine ⟨?_, ?_⟩
  · have hall : numericChars.all isWordChar = true := by decide
    rw [List.all_eq_true] at hall ⊢
    exact fun c hc => hall c (numeric_text n c hc)
  · obtain ⟨d, ds, hw, hd⟩ := n.whole_cons
    have halpha : d.isAlphanum = true := by simp [Char.isAlphanum, hd]
    have hminus : d ≠ '-' := ne_of_isAlphanum halpha (by decide)
    unfold Numeral.text Numeral.signText
    rw [hw]
    cases n.negative with
    | true => exact halpha
    | false => simpa [startsWord, hminus] using halpha

/-- What is reached after a value: a gap may be left before the mark. -/
def Past (T : List Token) (level : Nat) (rest : List Char) (s : Scan) : Prop :=
  ∃ g, g.all isFlat = true ∧ At s T level (g ++ rest)

theorem Leads.of_advances {Q : Scan → Prop} {s' : Scan} (h : Advances s s') (hq : Q s') :
    Leads Q s := .next h (.here hq)

def isTextChar (c : Char) : Bool := isReadable c && !isNewline c

theorem textChar_of_ascii {c : Char} (h : 0x20 ≤ c.toNat ∧ c.toNat ≤ 0x7E) :
    isTextChar c = true := by
  have hne : ∀ x : Char, x.toNat < 0x20 ∨ 0x7E < x.toNat → c ≠ x := by
    rintro x hx rfl
    omega
  simp [isTextChar, isReadable, isNewline, isBreak, h, hne '\r' (by decide), hne '\n' (by decide),
    hne '\x85' (by decide), hne '\u2028' (by decide), hne '\u2029' (by decide)]

theorem textChars_spelling {x : Spelling} (hx : isPlainSpelling x = true) :
    x.text.all isTextChar = true := by
  cases x with
  | raw c h => simpa [Spelling.text, isTextChar, isPlainSpelling] using hx
  | letter e c h =>
    unfold Json.letterEscape? at h
    split at h
    all_goals first
      | rfl
      | cases h
  | code a b c d h =>
    have hhex := List.all_eq_true.mp h
    have hascii : ∀ y ∈ [a, b, c, d], isTextChar y = true :=
      fun y hy => textChar_of_ascii (ascii_of_hex (hhex y hy))
    have hlead : isTextChar '\\' = true ∧ isTextChar 'u' = true := by decide
    simpa [Spelling.text, hlead] using hascii

theorem textChars_quotedText {q : List Spelling} (hq : q.all isPlainSpelling = true) :
    (quotedText q).all isTextChar = true := by
  have hquote : isTextChar '"' = true := by decide
  have hbody : (q.flatMap Spelling.text).all isTextChar = true := by
    rw [List.all_flatMap, List.all_eq_true]
    exact fun x hx => textChars_spelling (List.all_eq_true.mp hq x hx)
  simp [quotedText, hquote, hbody]

theorem leads_member {key : List Spelling} {middle : Json.Gap} (hk : shared.key key middle = true)
    (hg : g.all isFlat = true) (ha : s.allowKey = true)
    (h : At s T (level + 1) (g ++ (quotedText key ++ (unifyLineEnds middle.1 ++ ':' :: rest)))) :
    Leads (fun s' => At s' (T ++ [.key, .ofCodes (codePoints key), .value]) (level + 1) rest)
      s := by
  simp only [shared, isPlainText, Bool.and_eq_true, decide_eq_true_eq] at hk
  obtain ⟨⟨⟨hplain, -⟩, hmiddle⟩, hreach⟩ := hk
  rw [unifyLineEnds_blanks hmiddle] at h
  obtain ⟨s₁, hadv, hat, hkey⟩ := h.text hg hplain
  obtain ⟨c, keys, hrest, hcursor, hkeys⟩ := hkey ha
  have hline : (quotedText key).all (fun ch => !isNewline ch) = true := by
    have htext := List.all_eq_true.mp (textChars_quotedText hplain)
    exact List.all_eq_true.mpr fun ch hch => (Bool.and_eq_true_iff.mp (htext ch hch)).2
  obtain ⟨hl, hi⟩ := skip_within_line hrest hline
  obtain ⟨s₂, hadv', hat'⟩ := hat.colon hmiddle hkeys rfl (by rw [hcursor, hl])
    (by rw [hcursor, hi]; dsimp only; omega)
  exact .next hadv (.next hadv' (.here hat'))

mutual

/-- The text of a value inside brackets is cut into its tokens. -/
theorem leads_tree : ∀ (t : Tree) {s : Scan} {T : List Token} {level : Nat} {b g : List Char}
    {ch : Char} {rest : List Char}, t.obeys shared = true → b.all isFlat = true →
    g.all isFlat = true → isEnding ch = true →
    At s T (level + 1) (b ++ (t.spell unifyLineEnds ++ (g ++ ch :: rest))) →
    Leads (Past (T ++ treeTokens t) (level + 1) (ch :: rest)) s
  | .null, s, T, level, b, g, ch, rest, _, hb, hg, hch, h => by
    obtain ⟨s', hadv, hat⟩ := h.word hb (by decide) (by decide) hg hch
    exact .of_advances hadv ⟨[], rfl, hat⟩
  | .bool v, s, T, level, b, g, ch, rest, _, hb, hg, hch, h => by
    cases v with
    | true =>
      obtain ⟨s', hadv, hat⟩ := h.word hb (by decide) (by decide) hg hch
      exact .of_advances hadv ⟨[], rfl, hat⟩
    | false =>
      obtain ⟨s', hadv, hat⟩ := h.word hb (by decide) (by decide) hg hch
      exact .of_advances hadv ⟨[], rfl, hat⟩
  | .number n, s, T, level, b, g, ch, rest, _, hb, hg, hch, h => by
    obtain ⟨hword, hstart⟩ := word_number n
    obtain ⟨s', hadv, hat⟩ := h.word hb hword hstart hg hch
    exact .of_advances hadv ⟨[], rfl, hat⟩
  | .string q, s, T, level, b, g, ch, rest, ht, hb, hg, hch, h => by
    have hplain := (Bool.and_eq_true_iff.mp ht).1
    obtain ⟨s', hadv, hat, -⟩ := h.text hb hplain
    exact .of_advances hadv ⟨g, hg, hat⟩
  | .emptyList gap, s, T, level, b, g, ch, rest, ht, hb, hg, hch, h => by
    simp only [Tree.spell, List.cons_append, List.append_assoc, List.nil_append] at h
    obtain ⟨s₁, hadv, hat, -⟩ := h.open_bracket .list hb
    obtain ⟨s₂, hadv', hat'⟩ := hat.close_bracket .list (flat_gap ht)
    refine .next hadv (.of_advances hadv' ⟨g, hg, ?_⟩)
    simpa [treeTokens] using hat'
  | .list items, s, T, level, b, g, ch, rest, ht, hb, hg, hch, h => by
    simp only [Tree.spell, List.cons_append, List.append_assoc, List.nil_append] at h
    obtain ⟨s₁, hadv, hat, -⟩ := h.open_bracket .list hb
    refine .next hadv ((leads_items items ht hat).bind fun s₂ hat' => .here ⟨g, hg, ?_⟩)
    simpa [treeTokens] using hat'
  | .emptyMap gap, s, T, level, b, g, ch, rest, ht, hb, hg, hch, h => by
    simp only [Tree.spell, List.cons_append, List.append_assoc, List.nil_append] at h
    obtain ⟨s₁, hadv, hat, -⟩ := h.open_bracket .map hb
    obtain ⟨s₂, hadv', hat'⟩ := hat.close_bracket .map (flat_gap ht)
    refine .next hadv (.of_advances hadv' ⟨g, hg, ?_⟩)
    simpa [treeTokens] using hat'
  | .map members, s, T, level, b, g, ch, rest, ht, hb, hg, hch, h => by
    simp only [Tree.spell, List.cons_append, List.append_assoc, List.nil_append] at h
    obtain ⟨s₁, hadv, hat, ha⟩ := h.open_bracket .map hb
    refine .next hadv ((leads_members members ht ha hat).bind fun s₂ hat' => .here ⟨g, hg, ?_⟩)
    simpa [treeTokens] using hat'

theorem leads_items : ∀ (items : Items) {s : Scan} {T : List Token} {level : Nat}
    {rest : List Char}, items.obeys shared = true →
    At s T (level + 1) (items.spell unifyLineEnds ++ ']' :: rest) →
    Leads (fun s' => At s' (T ++ (itemsTokens items ++ [.flowSequenceEnd])) level rest) s
  | .last before v after, s, T, level, rest, ht, h => by
    simp only [Items.obeys, Bool.and_eq_true] at ht
    simp only [Items.spell, List.append_assoc] at h
    refine (leads_tree v ht.1.2 (flat_gap ht.1.1) (flat_gap ht.2) rfl h).bind ?_
    rintro s₁ ⟨g, hg, hat⟩
    obtain ⟨s₂, hadv, hat'⟩ := hat.close_bracket .list hg
    refine .of_advances hadv ?_
    simpa [itemsTokens] using hat'
  | .next before v after more, s, T, level, rest, ht, h => by
    simp only [Items.obeys, Bool.and_eq_true] at ht
    simp only [Items.spell, List.append_assoc, List.cons_append] at h
    refine (leads_tree v ht.1.1.2 (flat_gap ht.1.1.1) (flat_gap ht.1.2) rfl h).bind ?_
    rintro s₁ ⟨g, hg, hat⟩
    obtain ⟨s₂, hadv, hat', -⟩ := hat.comma hg
    refine .next hadv ((leads_items more ht.2 hat').bind fun s₃ hat'' => .here ?_)
    simpa [itemsTokens] using hat''

theorem leads_members : ∀ (members : Members) {s : Scan} {T : List Token} {level : Nat}
    {rest : List Char}, members.obeys shared = true → s.allowKey = true →
    At s T (level + 1) (members.spell unifyLineEnds ++ '\x7d' :: rest) →
    Leads (fun s' => At s' (T ++ (membersTokens members ++ [.flowMappingEnd])) level rest) s
  | .last before key middle ahead v after, s, T, level, rest, ht, ha, h => by
    simp only [Members.obeys, Bool.and_eq_true] at ht
    obtain ⟨⟨⟨⟨hbefore, hkey⟩, hahead⟩, hv⟩, hafter⟩ := ht
    simp only [Members.spell, List.append_assoc, List.cons_append] at h
    refine (leads_member hkey (flat_gap hbefore) ha h).bind fun s₁ hat => ?_
    refine (leads_tree v hv (flat_gap hahead) (flat_gap hafter) rfl hat).bind ?_
    rintro s₂ ⟨g, hg, hat'⟩
    obtain ⟨s₃, hadv, hat''⟩ := hat'.close_bracket .map hg
    refine .of_advances hadv ?_
    simpa [membersTokens] using hat''
  | .next before key middle ahead v after more, s, T, level, rest, ht, ha, h => by
    simp only [Members.obeys, Bool.and_eq_true] at ht
    obtain ⟨⟨⟨⟨⟨hbefore, hkey⟩, hahead⟩, hv⟩, hafter⟩, hmore⟩ := ht
    simp only [Members.spell, List.append_assoc, List.cons_append] at h
    refine (leads_member hkey (flat_gap hbefore) ha h).bind fun s₁ hat => ?_
    refine (leads_tree v hv (flat_gap hahead) (flat_gap hafter) rfl hat).bind ?_
    rintro s₂ ⟨g, hg, hat'⟩
    obtain ⟨s₃, hadv, hat'', ha'⟩ := hat'.comma hg
    refine .next hadv ((leads_members more hmore ha' hat'').bind fun s₄ hat''' => .here ?_)
    simpa [membersTokens] using hat'''

end

/-- The text of a part, and the same text with its line ends unified, whatever follows it. -/
structure Unifies (w w' : List Char) : Prop where
  readable : w'.all isReadable = true
  unify : ∀ rest, unifyLineEnds (w ++ rest) = w' ++ unifyLineEnds rest

theorem Unifies.append {v v' w w' : List Char} (h : Unifies v v') (h' : Unifies w w') :
    Unifies (v ++ w) (v' ++ w') := by
  refine ⟨by rw [List.all_append, h.readable, h'.readable]; rfl, fun rest => ?_⟩
  rw [List.append_assoc, h.unify, h'.unify, List.append_assoc]

theorem Unifies.word {w : List Char} (hw : w.all isTextChar = true) : Unifies w w := by
  have hchar := List.all_eq_true.mp hw
  refine ⟨List.all_eq_true.mpr fun c hc => (Bool.and_eq_true_iff.mp (hchar c hc)).1, fun rest => ?_⟩
  refine unifyLineEnds_solid (List.all_eq_true.mpr fun c hc => ?_) rest
  have hline := (Bool.and_eq_true_iff.mp (hchar c hc)).2
  rw [bne_iff_ne]
  rintro rfl
  exact absurd hline (by decide)

theorem readable_gap {gap : Json.Gap} (h : shared.gap gap = true) :
    (unifyLineEnds gap.1).all isReadable = true := by
  have hflat := List.all_eq_true.mp (flat_gap h)
  refine List.all_eq_true.mpr fun c hc => ?_
  rcases flat_cases (hflat c hc) with rfl | rfl <;> decide

theorem Unifies.gap {gap : Json.Gap} {ch : Char} {w w' : List Char} (hgap : shared.gap gap = true)
    (hch : ch ≠ '\n') (h : Unifies (ch :: w) w') :
    Unifies (gap.1 ++ ch :: w) (unifyLineEnds gap.1 ++ w') := by
  refine ⟨by rw [List.all_append, readable_gap hgap, h.readable]; rfl, fun rest => ?_⟩
  rw [List.append_assoc, unifyLineEnds_gap (by simpa using hch), h.unify, List.append_assoc]

theorem Unifies.gap_tree {gap : Json.Gap} {t : Tree} {w w' : List Char}
    (hgap : shared.gap gap = true) (h : Unifies (t.spell id ++ w) w') :
    Unifies (gap.1 ++ (t.spell id ++ w)) (unifyLineEnds gap.1 ++ w') := by
  obtain ⟨c, u, hc, -, hfeed⟩ := t.spell_cons id
  rw [hc] at h ⊢
  exact Unifies.gap hgap hfeed h

theorem Unifies.gap_key {gap : Json.Gap} {key : List Spelling} {middle : Json.Gap}
    {w w' : List Char}
    (hgap : shared.gap gap = true) (hk : shared.key key middle = true) (h : Unifies w w') :
    Unifies (gap.1 ++ (quotedText key ++ (middle.1 ++ ':' :: w)))
      (unifyLineEnds gap.1 ++ (quotedText key ++ (unifyLineEnds middle.1 ++ ':' :: w'))) := by
  simp only [shared, isPlainText, Bool.and_eq_true, decide_eq_true_eq] at hk
  have hmiddle : shared.gap middle = true := by
    have hblank := List.all_eq_true.mp hk.1.2
    have hnone : '\t' ∉ middle.1 := fun hmem => absurd (hblank '\t' hmem) (by decide)
    simpa [shared] using hnone
  have hcolon : Unifies (':' :: w) (':' :: w') := Unifies.append (v := [':']) (.word (by decide)) h
  have hkey : Unifies (quotedText key) (quotedText key) := .word (textChars_quotedText hk.1.1.1)
  exact Unifies.gap hgap (by decide) (hkey.append (Unifies.gap hmiddle (by decide) hcolon))

mutual

theorem unifies_tree : ∀ t : Tree, t.obeys shared = true →
    Unifies (t.spell id) (t.spell unifyLineEnds)
  | .null, _ => .word (by decide)
  | .bool b, _ => by cases b <;> exact .word (by decide)
  | .number n, _ => by
    have hall : numericChars.all isTextChar = true := by decide
    exact .word (List.all_eq_true.mpr fun c hc => List.all_eq_true.mp hall c (numeric_text n c hc))
  | .string q, ht => .word (textChars_quotedText (Bool.and_eq_true_iff.mp ht).1)
  | .emptyList gap, ht => by
    have hclose : Unifies [']'] [']'] := .word (by decide)
    exact Unifies.append (v := ['[']) (.word (by decide)) (Unifies.gap ht (by decide) hclose)
  | .list items, ht =>
    Unifies.append (v := ['[']) (.word (by decide)) (unifies_items items ht)
  | .emptyMap gap, ht => by
    have hclose : Unifies ['\x7d'] ['\x7d'] := .word (by decide)
    exact Unifies.append (v := ['\x7b']) (.word (by decide)) (Unifies.gap ht (by decide) hclose)
  | .map members, ht =>
    Unifies.append (v := ['\x7b']) (.word (by decide)) (unifies_members members ht)

theorem unifies_items : ∀ items : Items, items.obeys shared = true →
    Unifies (items.spell id ++ [']']) (items.spell unifyLineEnds ++ [']'])
  | .last before v after, ht => by
    simp only [Items.obeys, Bool.and_eq_true] at ht
    have hclose : Unifies [']'] [']'] := .word (by decide)
    simp only [Items.spell, id_eq, List.append_assoc]
    exact Unifies.gap_tree ht.1.1 ((unifies_tree v ht.1.2).append
      (Unifies.gap ht.2 (by decide) hclose))
  | .next before v after more, ht => by
    simp only [Items.obeys, Bool.and_eq_true] at ht
    have hmore : Unifies (',' :: (more.spell id ++ [']']))
        (',' :: (more.spell unifyLineEnds ++ [']'])) :=
      Unifies.append (v := [',']) (.word (by decide)) (unifies_items more ht.2)
    simp only [Items.spell, id_eq, List.append_assoc, List.cons_append]
    exact Unifies.gap_tree ht.1.1.1 ((unifies_tree v ht.1.1.2).append
      (Unifies.gap ht.1.2 (by decide) hmore))

theorem unifies_members : ∀ members : Members, members.obeys shared = true →
    Unifies (members.spell id ++ ['\x7d']) (members.spell unifyLineEnds ++ ['\x7d'])
  | .last before key middle ahead v after, ht => by
    simp only [Members.obeys, Bool.and_eq_true] at ht
    obtain ⟨⟨⟨⟨hbefore, hkey⟩, hahead⟩, hv⟩, hafter⟩ := ht
    have hclose : Unifies ['\x7d'] ['\x7d'] := .word (by decide)
    simp only [Members.spell, id_eq, List.append_assoc, List.cons_append]
    exact Unifies.gap_key hbefore hkey (Unifies.gap_tree hahead ((unifies_tree v hv).append
      (Unifies.gap hafter (by decide) hclose)))
  | .next before key middle ahead v after more, ht => by
    simp only [Members.obeys, Bool.and_eq_true] at ht
    obtain ⟨⟨⟨⟨⟨hbefore, hkey⟩, hahead⟩, hv⟩, hafter⟩, hmore⟩ := ht
    have hnext : Unifies (',' :: (more.spell id ++ ['\x7d']))
        (',' :: (more.spell unifyLineEnds ++ ['\x7d'])) :=
      Unifies.append (v := [',']) (.word (by decide)) (unifies_members more hmore)
    simp only [Members.spell, id_eq, List.append_assoc, List.cons_append]
    exact Unifies.gap_key hbefore hkey (Unifies.gap_tree hahead ((unifies_tree v hv).append
      (Unifies.gap hafter (by decide) hnext)))

end

theorem At.finish (h : At s T 0 g) (hg : g.all isFlat = true) (fuel : Nat) :
    run (fuel + 2) s = (T ++ [Token.streamEnd]).toArray := by
  rw [← List.append_nil g] at h
  obtain ⟨r, hready, hat, -⟩ := h.ready hg rfl
  obtain ⟨r', hdrop, hat', -⟩ := hat.dropKey
  have hunwind : r.unwind (-1) = r := unwind_of_le hat.level (by rw [hat.indent])
  have hstep : s.step =
      .ok { r'.push .streamEnd with allowKey := false, keys := [], done := true } := by
    rw [step, hready, ok_bind]
    simp only [takeToken, Cursor.atEnd, hat.rest, List.isEmpty_nil, if_true, streamEnd, hunwind,
    hdrop]
    rfl
  rw [run, h.active, hstep]
  simp [run, push, hat'.tokens]

end Scan

open Scan

theorem leads_object {t : Tree} {s : Scan} {b rest : List Char} (ho : t.isObject = true)
    (ht : t.obeys shared = true) (hb : b.all isFlat = true)
    (h : At s [] 0 (b ++ (t.spell unifyLineEnds ++ rest))) :
    Leads (fun s' => At s' (treeTokens t) 0 rest) s := by
  cases t with
  | emptyMap gap =>
    simp only [Tree.spell, List.cons_append, List.append_assoc, List.nil_append] at h
    obtain ⟨s₁, hadv, hat, -⟩ := h.open_bracket .map hb
    obtain ⟨s₂, hadv', hat'⟩ := hat.close_bracket .map (flat_gap ht)
    exact .next hadv (.of_advances hadv' hat')
  | map members =>
    simp only [Tree.spell, List.cons_append, List.append_assoc, List.nil_append] at h
    obtain ⟨s₁, hadv, hat, ha⟩ := h.open_bracket .map hb
    exact .next hadv (leads_members members ht ha hat)
  | _ => cases ho

section Document
variable {d : Document}

theorem unifyLineEnds_document (h : d.root.obeys shared = true) :
    unifyLineEnds d.text = d.spell unifyLineEnds := by
  obtain ⟨c, u, hc, -, hfeed⟩ := d.root.spell_cons id
  have hhead : (d.root.spell id ++ d.after.1).head? ≠ some '\n' := by
    rw [hc]
    simpa using hfeed
  simp only [Document.text, Document.spell, id_eq]
  rw [unifyLineEnds_gap hhead, (unifies_tree d.root h).unify]

/-- No byte order mark comes first. -/
theorem peek_document (hb : shared.gap d.before = true) :
    (Cursor.peek { rest := d.spell unifyLineEnds } == '\uFEFF') = false := by
  have hflat := flat_gap hb
  obtain ⟨c, u, hc, ho, -⟩ := d.root.spell_cons unifyLineEnds
  rw [beq_eq_false_iff_ne]
  cases hg : unifyLineEnds d.before.1 with
  | nil => simpa [Document.spell, hg, hc, Cursor.peek] using ho.2.2
  | cons x g =>
    rw [hg, List.all_cons, Bool.and_eq_true] at hflat
    rcases flat_cases hflat.1 with rfl | rfl <;> simp [Document.spell, hg, Cursor.peek]

/-- The tokens of a document are those of its tree. -/
theorem scan_document (ho : d.root.isObject = true) (hd : d.obeys shared = true) :
    Token.scan (unifyLineEnds d.text) = treeTokens d.root ++ [.streamEnd] := by
  simp only [Document.obeys, Bool.and_eq_true] at hd
  obtain ⟨⟨hb, ht⟩, ha⟩ := hd
  have hreadable : (d.spell unifyLineEnds).all isReadable = true := by
    simp only [Document.spell, List.all_append, readable_gap hb, readable_gap ha,
      (unifies_tree d.root ht).readable, Bool.and_true]
  have hstart := peek_document hb
  have hat : At { cursor := { rest := d.spell unifyLineEnds } } [] 0
      (unifyLineEnds d.before.1 ++ (d.root.spell unifyLineEnds ++ unifyLineEnds d.after.1)) :=
    ⟨rfl, rfl, rfl, rfl, rfl, rfl, by simp⟩
  obtain ⟨s, m, hs, hlen, -, hrun⟩ := run_of_leads (leads_object ho ht (flat_gap hb) hat)
  have hfuel : (d.spell unifyLineEnds).length + 2 = (d.spell unifyLineEnds).length - m + 2 + m := by
    dsimp only at hlen
    omega
  rw [unifyLineEnds_document ht]
  simp only [Token.scan, hreadable, if_true, hstart, Bool.false_eq_true, if_false]
  rw [hfuel, hrun, hs.finish (flat_gap ha)]

end Document

end RouteBook.Yaml
