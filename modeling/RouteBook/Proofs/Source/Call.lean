import RouteBook.Proofs.Source.Token
import RouteBook.Source.Parser

/-! Names, literals, and lists of these as the arguments of a call. -/
namespace RouteBook.Source
variable {a : Char} {ws s t w : List Char} {pos : Nat} {self : Grammar} {last : Bool}

def closers : List Char := [',', ')', ';']

def nameEnds : List Char := '.' :: '(' :: closers

theorem nameEnd_of_closer (ha : a ∈ closers) : a ∈ nameEnds :=
  List.mem_cons_of_mem _ (List.mem_cons_of_mem _ ha)

theorem solid_of_nameEnd (ha : a ∈ nameEnds) (s : List Char) : Solid (a :: s) := by
  have hall : ∀ b ∈ nameEnds, isSpace b = false ∧ b ≠ '/' :=
    List.all_iff_forall_prop.mp (by decide)
  exact solid_cons (hall a ha) s

theorem endsWord_of_nameEnd (ha : a ∈ nameEnds) (s : List Char) : EndsWord (a :: s) := by
  have hall : ∀ b ∈ nameEnds, isWordChar b = false ∧ b ≠ '\\' :=
    List.all_iff_forall_prop.mp (by decide)
  exact endsWord_cons (hall a ha) s

theorem solid_of_closer (ha : a ∈ closers) (s : List Char) : Solid (a :: s) :=
  solid_of_nameEnd (nameEnd_of_closer ha) s

def isFirm (a : Char) : Bool := a != '\x00' && a != '\x7d' && a != '\n' && !isWideSpace a

theorem statementEnd?_no (c : Cursor) (ha : isFirm a = true) (hs : Solid (a :: s)) (inExpr : Bool)
    (pos : Nat) : (c.on (a :: s) pos).statementEnd? inExpr false = none := by
  simp only [isFirm, Bool.and_eq_true, bne_iff_ne, Bool.not_eq_true'] at ha
  obtain ⟨⟨⟨hz, hb⟩, hn⟩, hw⟩ := ha
  have hends : endsHere inExpr false (c.on (a :: s) pos).rest = false := by
    change (if (a == '\x00') then true else if (a == '\x7d') then _ else if (a == '\n') then _
      else if isWideSpace a then _ else false) = false
    rw [beq_eq_false_iff_ne.mpr hz, beq_eq_false_iff_ne.mpr hb, beq_eq_false_iff_ne.mpr hn, hw]
    rfl
  have hcomment : (c.on (a :: s) pos).comment? = none := comment?_solid c gap_nil hs pos
  rw [Cursor.statementEnd?, hends]
  split
  · contradiction
  · split
    · next d hd =>
      rw [hcomment] at hd
      cases hd
    · rfl

theorem breaksHere_no (c : Cursor) (ha : isFirm a = true) (hs : Solid (a :: s)) (inExpr : Bool)
    (pos : Nat) : breaksHere inExpr (c.on (a :: s) pos) = some (false, c.on (a :: s) pos) := by
  rw [breaksHere, statementEnd?_no c ha hs]
  rfl

theorem semicolon_on (c : Cursor) (inExpr : Bool) (s : List Char) (pos : Nat) :
    semicolon inExpr false (c.on (';' :: s) pos) = some ((), c.on s (pos + 1)) := by
  have hsolid := solid_of_closer (by decide : ';' ∈ closers) s
  rw [semicolon, statementEnd?_no c (by decide) hsolid]
  exact expect_yes c hsolid rfl pos

theorem isFirm_of_closer (ha : a ∈ closers) : isFirm a = true :=
  List.all_eq_true.mp (by decide : closers.all isFirm = true) a ha

def trailTokens : List String := ["?.", ".", "(", "[", "`", "!", "++", "--", "<"]

theorem trailing_stop (c : Cursor) (ha : a ∈ closers) (start fuel : Nat) (h : Head) (pos : Nat) :
    trailing self last start fuel h (c.on (a :: s) pos) = some (h, c.on (a :: s) pos) := by
  have hmiss : ∀ b ∈ closers, ∀ token ∈ trailTokens, misses token b = true :=
    List.all_iff_forall_prop.mp (by decide)
  have hno : ∀ token ∈ trailTokens, startsWith (Text.ofChars (a :: s)) token = false :=
    fun token ht => startsWith_of_misses (hmiss a ha token ht) s
  simp only [trailTokens, List.forall_mem_cons, List.not_mem_nil, IsEmpty.forall_iff] at hno
  have hsolid := solid_of_closer ha s
  cases fuel with
  | zero => rfl
  | succ fuel =>
    simp [trailing, breaksHere_no c (isFirm_of_closer ha) hsolid, skipExtras_self c hsolid, hno]

theorem seesChoice_no (c : Cursor) (ha : a ∈ closers) (pos : Nat) :
    seesChoice (c.on (a :: s) pos) = some (false, c.on (a :: s) pos) := by
  have hmiss : misses "?" a = true :=
    List.all_eq_true.mp (by decide : closers.all (misses "?") = true) a ha
  simp [seesChoice, skipExtras_self c (solid_of_closer ha s), startsWith_of_misses hmiss]

theorem operator_stop (c : Cursor) (ha : a ∈ closers) (pos : Nat) :
    operator self last (c.on (a :: s) pos) = none := by
  have hsolid := solid_of_closer ha s
  have hmiss : ∀ b ∈ closers, ∀ token ∈ binarySigns, misses token b = true :=
    List.all_iff_forall_prop.mp (by decide)
  have hnone : binarySigns.find? (startsWith (Text.ofChars (a :: s)) ·) = none :=
    find?_startsWith fun token ht => startsWith_of_misses (hmiss a ha token ht) s
  have hword : EndsWord (a :: s) := endsWord_of_nameEnd (nameEnd_of_closer ha) s
  simp [operator, breaksHere_no c (isFirm_of_closer ha) hsolid, peekWord_mark c hword hsolid,
    seesChoice_no c ha, skipExtras_self c hsolid, hnone]

theorem expressionRule_of_operand {c d : Cursor} {tree : Tree} (ha : a ∈ closers)
    (h : self (.operand last) c = some (tree, d.on (a :: s) pos)) :
    expressionRule self last c = some (tree, d.on (a :: s) pos) := by
  simp [expressionRule, h, many_none (operator_stop d ha pos)]

theorem anyAssignSign_stop (c : Cursor) (ha : a ∈ closers) (pos : Nat) :
    anyAssignSign (c.on (a :: s) pos) = none := by
  have hsolid := solid_of_closer ha s
  have hmiss : ∀ b ∈ closers, ∀ token ∈ assignSigns ++ ["==", "=>", "="],
      misses token b = true := List.all_iff_forall_prop.mp (by decide)
  have hnone : assignSigns.find? (startsWith (Text.ofChars (a :: s)) ·) = none :=
    find?_startsWith fun token ht => startsWith_of_misses (hmiss a ha token (by simp [ht])) s
  have hsees (token : String) (ht : token ∈ assignSigns ++ ["==", "=>", "="]) :=
    sees_no c gap_nil hsolid (hmiss a ha token ht) pos
  have hexpect := expect_no c gap_nil hsolid (hmiss a ha "=" (by decide)) pos
  simp only [List.nil_append] at hsees hexpect
  simp [anyAssignSign, skipExtras_self c hsolid, hnone, assignSign, hsees "==" (by decide),
    hsees "=>" (by decide), hexpect]

/-- Words that do not start a name where an operand or a statement starts. -/
def leadingWords : List String :=
  ["if", "for", "while", "with", "do", "switch", "try", "return", "throw", "break", "continue",
   "debugger", "interface", "enum", "abstract", "const", "var", "function", "class", "async", "let",
   "type", "module", "namespace", "declare", "import", "export", "this", "super", "null", "true",
   "false", "undefined", "typeof", "void", "delete", "await", "new", "yield"]

/-- A name that no rule of the language takes for something else. -/
structure PlainName (w : List Char) : Prop where
  name : isName w = true
  free : String.ofList w ∉ leadingWords

theorem wordUnit_plain (self : Grammar) {word : String} (h : word ∉ leadingWords) :
    wordUnit self word = wordUnit.identifier := by
  unfold wordUnit
  split <;> first | rfl | simp [leadingWords] at h

section Names
variable {w : List Char}

theorem PlainName.ne (h : PlainName w) {word : String} (hw : word ∈ leadingWords) :
    String.ofList w ≠ word := fun he => h.free (he ▸ hw)

theorem PlainName.ne_nil (h : PlainName w) : String.ofList w ≠ "" := by
  obtain ⟨a, t, rfl, -⟩ := isName_cases h.name
  simp

/-- No token of marks stands where a name stands. -/
theorem PlainName.not_startsWith (h : PlainName w) {token : String} (ht : isSign token = true)
    (s : List Char) : startsWith (Text.ofChars (w ++ s)) token = false := by
  obtain ⟨a, v, rfl, ha, -⟩ := isName_cases h.name
  exact startsWith_of_misses (misses_of_isNameStart ha ht) (v ++ s)

theorem PlainName.fresh (h : PlainName w) (s : List Char) : Fresh (w ++ s) := by
  obtain ⟨a, v, rfl, ha, -⟩ := isName_cases h.name
  exact fresh_of_isNameStart ha (v ++ s)

theorem unitOf_name (c : Cursor) (hw : PlainName w) (hs : EndsWord s) (pos : Nat) :
    unitOf self last (c.on (w ++ s) pos) =
      some (⟨.identifier (String.ofList w), true, false⟩, c.on s (pos + Text.width w)) := by
  simp [unitOf, tokenStart_self c (hw.fresh s), wordAt_name hw.name hs, hw.ne_nil,
    wordUnit_plain self hw.free, wordUnit.identifier, word_name c hw.name hs]

theorem mayBeArrow_name (c : Cursor) (hw : PlainName w) (ha : a ∈ nameEnds) (pos : Nat) :
    mayBeArrow (String.ofList w) (Text.ofChars (w ++ a :: s)) (c.on (w ++ a :: s) pos) =
      some (false, c.on (w ++ a :: s) pos) := by
  have hmiss : misses "=>" a = true :=
    List.all_eq_true.mp (by decide : nameEnds.all (misses "=>") = true) a ha
  have hexpect := expect_no c gap_nil (solid_of_nameEnd ha s) hmiss (pos + Text.width w)
  have hparen : startsWith (Text.ofChars (w ++ a :: s)) "(" = false :=
    hw.not_startsWith (by decide) (a :: s)
  rw [List.nil_append] at hexpect
  simp [mayBeArrow, hw.ne (by decide : "async" ∈ leadingWords), hparen, hw.ne_nil,
    word_name c hw.name (endsWord_of_nameEnd ha s), hexpect]

theorem head_name (c : Cursor) (hw : PlainName w) (ha : a ∈ nameEnds) (pos : Nat) :
    head self last (c.on (w ++ a :: s) pos) =
      some (⟨.identifier (String.ofList w), true, false⟩, c.on (a :: s) (pos + Text.width w)) := by
  have hends := endsWord_of_nameEnd ha s
  have hangle : startsWith (Text.ofChars (w ++ a :: s)) "<" = false :=
    hw.not_startsWith (by decide) (a :: s)
  simp [head, wordAt_name hw.name hends, mayBeArrow_name c hw ha,
    hw.ne (by decide : "new" ∈ leadingWords), hw.ne (by decide : "yield" ∈ leadingWords), hangle,
    unitOf_name c hw hends]

theorem operandRule_name_head (c : Cursor) (hg : Gap ws) (hw : PlainName w) (ha : a ∈ nameEnds)
    (pos : Nat) :
    operandRule self last (c.on (ws ++ (w ++ a :: s)) pos) =
      (do
        let h ← trailing self last (pos + Text.width ws) ((← get).rest.length + 1)
          ⟨.identifier (String.ofList w), true, false⟩
        if h.assignable && (← wouldParse anyAssignSign) then
          anyAssignSign
          return .group [h.tree, ← self (.expression last)]
        else return h.tree : Parse Tree)
        (c.on (a :: s) (pos + Text.width ws + Text.width w)) := by
  have hlead : leadSigns.find? (startsWith (Text.ofChars (w ++ a :: s)) ·) = none := by
    have hsign : ∀ token ∈ leadSigns, isSign token = true := by decide
    exact find?_startsWith fun token ht => hw.not_startsWith (hsign token ht) (a :: s)
  have hword : String.ofList w ∉ leadWords := by
    have hsub : ∀ v ∈ leadWords, v ∈ leadingWords := by decide
    exact fun h => hw.free (hsub _ h)
  simp [operandRule, tokenStart_on c hg (hw.fresh (a :: s)), hlead,
    wordAt_name hw.name (endsWord_of_nameEnd ha s), hword, head_name c hw ha]

theorem operandRule_name (c : Cursor) (hg : Gap ws) (hw : PlainName w) (ha : a ∈ closers)
    (pos : Nat) :
    operandRule self last (c.on (ws ++ (w ++ a :: s)) pos) =
      some (.identifier (String.ofList w), c.on (a :: s) (pos + Text.width ws + Text.width w)) := by
  rw [operandRule_name_head c hg hw (nameEnd_of_closer ha)]
  simp [trailing_stop c ha, anyAssignSign_stop c ha]

end Names

section Strings
variable {raw : List Char}

/-- A text that can stand between single quotes. -/
def Closes (raw : List Char) : Prop :=
  ∀ s, stringLength? '\'' 0 (Text.ofChars (raw ++ '\'' :: s)) = some (raw.length + 1)

def quoted (raw : List Char) : List Char := '\'' :: (raw ++ ['\''])

theorem quoted_append (raw s : List Char) : quoted raw ++ s = '\'' :: (raw ++ '\'' :: s) := by
  simp [quoted]

theorem width_quoted (raw : List Char) : Text.width (quoted raw) = Text.width raw + 2 := by
  have hsize : '\''.utf8Size = 1 := rfl
  simp only [quoted, Text.width_cons, Text.width_append, Text.width_nil, hsize]
  omega

theorem fresh_quoted (raw s : List Char) : Fresh (quoted raw ++ s) := by
  rw [quoted_append]
  exact ⟨solid_cons (by decide) _, by simp⟩

theorem wordAt_quoted (raw s : List Char) : wordAt (Text.ofChars (quoted raw ++ s)) = "" := by
  rw [quoted_append]
  exact wordAt_mark (endsWord_cons (by decide) _)

theorem unitOf_string (c : Cursor) (hr : Closes raw) (s : List Char) (pos : Nat) :
    unitOf self last (c.on (quoted raw ++ s) pos) =
      some (⟨.string pos (String.ofList raw), false, false⟩,
        c.on s (pos + Text.width (quoted raw))) := by
  have hno : ∀ token ∈ ["(", "\x7b", "["],
      startsWith (Text.ofChars ('\'' :: (raw ++ '\'' :: s))) token = false := by
    have hmiss : ∀ token ∈ ["(", "\x7b", "["], misses token '\'' = true := by decide
    exact fun token ht => startsWith_of_misses (hmiss token ht) _
  simp only [List.forall_mem_cons, List.not_mem_nil, IsEmpty.forall_iff] at hno
  have hword := wordAt_quoted raw s
  have hquote : startsWith (Text.ofChars ('\'' :: (raw ++ '\'' :: s))) "'" = true :=
    startsWith_sign rfl _
  have hstart := tokenStart_self c (fresh_quoted raw s) pos
  rw [width_quoted, quoted_append]
  rw [quoted_append] at hstart hword
  simp [unitOf, hstart, hword, hno, hquote, stringLiteral_on c (hr s)]

theorem operandRule_string (c : Cursor) (hg : Gap ws) (hr : Closes raw) (ha : a ∈ closers)
    (pos : Nat) :
    operandRule self last (c.on (ws ++ (quoted raw ++ a :: s)) pos) =
      some (.string (pos + Text.width ws) (String.ofList raw),
        c.on (a :: s) (pos + Text.width ws + Text.width (quoted raw))) := by
  have hno : ∀ token ∈ "(" :: "<" :: leadSigns,
      startsWith (Text.ofChars (quoted raw ++ a :: s)) token = false := by
    have hmiss : ∀ token ∈ "(" :: "<" :: leadSigns, misses token '\'' = true := by decide
    rw [quoted_append]
    exact fun token ht => startsWith_of_misses (hmiss token ht) _
  have hlead : leadSigns.find? (startsWith (Text.ofChars (quoted raw ++ a :: s)) ·) = none :=
    find?_startsWith fun token ht => hno token (by simp [ht])
  simp [operandRule, tokenStart_on c hg (fresh_quoted raw (a :: s)), hlead, wordAt_quoted,
    leadWords, head, mayBeArrow, hno "(" (by decide), hno "<" (by decide), unitOf_string c hr,
    trailing_stop c ha]

end Strings

section Arguments

/-- An argument of a call: a name or a literal. -/
inductive Argument where
  | name (text : List Char)
  | literal (raw : List Char)

namespace Argument

def text : Argument → List Char
  | name w => w
  | literal raw => quoted raw

def Valid : Argument → Prop
  | name w => PlainName w
  | literal raw => Closes raw

def tree (start : Nat) : Argument → Tree
  | name w => .identifier (String.ofList w)
  | literal raw => .string start (String.ofList raw)

end Argument

theorem grammar_argument {x : Argument} (hx : x.Valid) (c : Cursor) (hg : Gap ws)
    (ha : a ∈ closers) (depth pos : Nat) :
    grammar (depth + 2) (.expression false) (c.on (ws ++ (x.text ++ a :: s)) pos) =
      some (x.tree (pos + Text.width ws),
        c.on (a :: s) (pos + Text.width ws + Text.width x.text)) := by
  apply expressionRule_of_operand ha
  cases x with
  | name w => exact operandRule_name c hg hx ha pos
  | literal raw => exact operandRule_string c hg hx ha pos

theorem Argument.first {x : Argument} (hx : x.Valid) (s : List Char) :
    ∃ b t, x.text ++ s = b :: t ∧ Solid (b :: t) ∧
      ∀ token ∈ [")", ",", "..."], misses token b = true := by
  cases x with
  | name w =>
    obtain ⟨b, t, rfl, hb, -⟩ := isName_cases hx.name
    have hsign : ∀ token ∈ [")", ",", "..."], isSign token = true := by decide
    exact ⟨b, t ++ s, rfl, (fresh_of_isNameStart hb _).1,
      fun token ht => misses_of_isNameStart hb (hsign token ht)⟩
  | literal raw =>
    exact ⟨'\'', raw ++ '\'' :: s, quoted_append raw s, solid_cons (by decide) _, by decide⟩

theorem accept_argument {x : Argument} (hx : x.Valid) (c : Cursor) (hg : Gap ws) {token : String}
    (ht : token ∈ [")", ",", "..."]) (s : List Char) (pos : Nat) :
    accept token (c.on (ws ++ (x.text ++ s)) pos) =
      some (false, c.on (ws ++ (x.text ++ s)) pos) := by
  obtain ⟨b, t, he, hsolid, hmiss⟩ := Argument.first hx s
  rw [he]
  exact accept_no c hg hsolid (hmiss token ht) pos

theorem item_argument {x : Argument} (hx : x.Valid) (c : Cursor) (hg : Gap ws)
    (ha : a ∈ closers) (depth pos : Nat) :
    item (grammar (depth + 2)) (c.on (ws ++ (x.text ++ a :: s)) pos) =
      some (x.tree (pos + Text.width ws),
        c.on (a :: s) (pos + Text.width ws + Text.width x.text)) := by
  simp [item, accept_argument hx c hg (by decide : "..." ∈ [")", ",", "..."]),
    grammar_argument hx c hg ha depth]

def argumentTrees (pos : Nat) : List Argument → List Tree
  | [] => []
  | x :: xs => x.tree pos :: argumentTrees (pos + Text.width x.text + 2) xs

def moreArguments (xs : List Argument) : List Char := xs.flatMap fun x => ',' :: ' ' :: x.text

theorem sparseListUpTo_arguments {x : Argument} {xs : List Argument} (hx : x.Valid)
    (hxs : ∀ y ∈ xs, y.Valid) (c : Cursor) (hg : Gap ws) (depth fuel pos : Nat)
    (hf : xs.length < fuel) :
    sparseListUpTo ")" (item (grammar (depth + 2))) fuel
      (c.on (ws ++ (x.text ++ (moreArguments xs ++ ')' :: s))) pos) =
      some (argumentTrees (pos + Text.width ws) (x :: xs),
        c.on s (pos + Text.width ws + Text.width (x.text ++ moreArguments xs) + 1)) := by
  have hparen : Solid (')' :: s) := solid_of_closer (by decide) s
  -- One round reads an argument and the comma after it; the blank after the comma is the white
  -- space of the next round.
  induction xs generalizing x ws fuel pos with
  | nil =>
    obtain ⟨n, rfl⟩ : ∃ n, fuel = n + 1 := ⟨fuel - 1, by omega⟩
    have hsize : ')'.utf8Size = 1 := rfl
    simp [sparseListUpTo, moreArguments, accept_argument hx c hg,
      item_argument hx c hg (by decide : ')' ∈ closers), accept_yes c hparen (rfl : ")".toList = _),
      argumentTrees, hsize]
  | cons y ys ih =>
    obtain ⟨n, rfl⟩ : ∃ n, fuel = n + 1 := ⟨fuel - 1, by omega⟩
    have hspace : Gap [' '] := gap_cons (by decide)
    have hmore := ih (x := y) (hxs y (by simp)) (fun z hz => hxs z (by simp [hz])) hspace n
      (pos + Text.width ws + Text.width x.text + 1) (by simp at hf; omega)
    have htext : moreArguments (y :: ys) ++ ')' :: s =
        ',' :: ([' '] ++ (y.text ++ (moreArguments ys ++ ')' :: s))) := by
      simp [moreArguments]
    have hcomma : Solid (',' :: ([' '] ++ (y.text ++ (moreArguments ys ++ ')' :: s)))) :=
      solid_of_closer (by decide) _
    have hsize : ','.utf8Size = 1 := rfl
    have hclose := accept_no c gap_nil hcomma (by decide : misses ")" ',' = true)
    have hnext := expect_yes c hcomma (rfl : ",".toList = _)
    rw [List.nil_append] at hclose
    rw [htext]
    simp only [sparseListUpTo, bind_apply, accept_argument hx c hg, List.mem_cons, true_or, or_true,
      Option.bind_some, Bool.false_eq_true, if_false,
      item_argument hx c hg (by decide : ',' ∈ closers), hclose, hnext, hsize, hmore]
    have hblank : Text.width [' '] = 1 := rfl
    have hwidth : Text.width (x.text ++ moreArguments (y :: ys)) =
        Text.width x.text + 1 + 1 + Text.width (y.text ++ moreArguments ys) := by
      have hcons : moreArguments (y :: ys) = [',', ' '] ++ (y.text ++ moreArguments ys) := by
        simp [moreArguments]
      have htwo : Text.width [',', ' '] = 2 := rfl
      rw [hcons, Text.width_append, Text.width_append [',', ' '], htwo]
      omega
    have hend : pos + Text.width ws + Text.width x.text + 1 + 1 +
        Text.width (y.text ++ moreArguments ys) + 1 = pos + Text.width ws +
        (Text.width x.text + 1 + 1 + Text.width (y.text ++ moreArguments ys)) + 1 := by omega
    rw [hblank, hwidth, hend]
    rfl

theorem length_le_moreArguments (xs : List Argument) : xs.length ≤ (moreArguments xs).length := by
  induction xs with
  | nil => exact Nat.zero_le _
  | cons x xs ih =>
    simp only [moreArguments, List.flatMap_cons, List.length_append, List.length_cons] at ih ⊢
    omega

theorem arguments_on {x : Argument} {xs : List Argument} (hx : x.Valid) (hxs : ∀ y ∈ xs, y.Valid)
    (c : Cursor) (depth pos : Nat) :
    arguments (grammar (depth + 2)) (c.on ('(' :: (x.text ++ (moreArguments xs ++ ')' :: s))) pos) =
      some (argumentTrees (pos + 1) (x :: xs),
        c.on s (pos + 1 + Text.width (x.text ++ moreArguments xs) + 1)) := by
  have hopen : Solid ('(' :: (x.text ++ (moreArguments xs ++ ')' :: s))) :=
    solid_of_nameEnd (by decide) _
  have hsize : '('.utf8Size = 1 := rfl
  have hfuel : xs.length <
      (Text.ofChars (x.text ++ (moreArguments xs ++ ')' :: s))).length + 1 := by
    have hle := length_le_moreArguments xs
    simp only [Text.ofChars, List.length_map, List.length_append]
    omega
  have hlist := sparseListUpTo_arguments (s := s) hx hxs c gap_nil depth _ (pos + 1) hfuel
  simp only [List.nil_append, Text.width_nil, Nat.add_zero] at hlist
  simp only [arguments, bind_apply, expect_yes c hopen (rfl : "(".toList = _), Option.bind_some,
    hsize, sparseList, get_apply, Cursor.rest_on, hlist]

end Arguments

section Members
variable {v : List Char} {h : Head}

theorem memberOf_on (object : Tree) (c : Cursor) (hv : isName v = true) (hs : EndsWord s)
    (pos : Nat) :
    memberOf object (c.on (v ++ s) pos) =
      some (.member object pos (String.ofList v), c.on s (pos + Text.width v)) := by
  have hfresh : Fresh (v ++ s) := by
    obtain ⟨b, t, rfl, hb, -⟩ := isName_cases hv
    exact fresh_of_isNameStart hb (t ++ s)
  simp [memberOf, tokenStart_self c hfresh, word_name c hv hs]

theorem trailing_member (c : Cursor) (hv : isName v = true) (hs : EndsWord s)
    (start fuel pos : Nat) :
    trailing self last start (fuel + 1) h (c.on ('.' :: (v ++ s)) pos) =
      trailing self last start fuel ⟨.member h.tree (pos + 1) (String.ofList v), true, false⟩
        (c.on s (pos + 1 + Text.width v)) := by
  have hsolid : Solid ('.' :: (v ++ s)) := solid_of_nameEnd (by decide) _
  have hchain : startsWith (Text.ofChars ('.' :: (v ++ s))) "?." = false :=
    startsWith_of_misses (by decide) _
  have hdot : startsWith (Text.ofChars ('.' :: (v ++ s))) "." = true := startsWith_sign rfl _
  have hsize : '.'.utf8Size = 1 := rfl
  simp [trailing, breaksHere_no c (by decide : isFirm '.' = true) hsolid, skipExtras_self c hsolid,
    hchain, hdot, expect_yes c hsolid (rfl : ".".toList = _), hsize, memberOf_on h.tree c hv hs]

theorem trailing_call {c d : Cursor} {args : List Tree}
    (hargs : arguments self (c.on ('(' :: s) pos) = some (args, d)) (start fuel : Nat) :
    trailing self last start (fuel + 1) h (c.on ('(' :: s) pos) =
      trailing self last start fuel ⟨.call start h.tree args, false, false⟩ d := by
  have hsolid : Solid ('(' :: s) := solid_of_nameEnd (by decide) s
  have hchain : startsWith (Text.ofChars ('(' :: s)) "?." = false :=
    startsWith_of_misses (by decide) s
  have hdot : startsWith (Text.ofChars ('(' :: s)) "." = false := startsWith_of_misses (by decide) s
  have hparen : startsWith (Text.ofChars ('(' :: s)) "(" = true := startsWith_sign rfl s
  simp [trailing, breaksHere_no c (by decide : isFirm '(' = true) hsolid, skipExtras_self c hsolid,
    hchain, hdot, hparen, hargs]

end Members

end RouteBook.Source
