import RouteBook.Proofs.Source.Call

/-! Chains of calls on a name, as statements. A call of one member is the chain with one link. -/
namespace RouteBook.Source
variable {a : Char} {s t w : List Char} {pos : Nat} {last : Bool}

section Statements

theorem expressionStatement_of_operand {c d : Cursor} {tree : Tree} {depth : Nat}
    (h : grammar (depth + 3) (.operand true) c = some (tree, d.on (';' :: s) pos)) :
    expressionStatement (grammar (depth + 4)) c = some (tree, d.on s (pos + 1)) := by
  have hsolid := solid_of_closer (by decide : ';' ∈ closers) s
  have htree : grammar (depth + 4) (.expression true) c = some (tree, d.on (';' :: s) pos) :=
    expressionRule_of_operand (by decide) h
  have hcomma : expect "," (d.on (';' :: s) pos) = none :=
    expect_no d gap_nil hsolid (by decide) _
  have hmore : many (do expect ","; grammar (depth + 4) (.expression true))
      (d.on (';' :: s) pos) = some ([], d.on (';' :: s) pos) := many_none (by simp [hcomma])
  simp [expressionStatement, expressions, htree, hmore, semicolon_on d]

/-- A name without a colon after it is no label. -/
theorem labelled_name (hw : PlainName w) (ha : a ∈ nameEnds) (self : Grammar) (c : Cursor)
    (s : List Char) (pos : Nat) : labelled self (c.on (w ++ a :: s) pos) = none := by
  have hmiss : misses ":" a = true :=
    List.all_eq_true.mp (by decide : nameEnds.all (misses ":") = true) a ha
  have hcolon := expect_no c gap_nil (solid_of_nameEnd ha s) hmiss (pos + Text.width w)
  rw [List.nil_append] at hcolon
  simp [labelled, word_name c hw.name (endsWord_of_nameEnd ha s), hcolon]

theorem wordStatement_plain (self : Grammar) {word : String} (h : word ∉ leadingWords) :
    wordStatement self word = plainStatement self := by
  unfold wordStatement
  split <;> first | rfl | simp [leadingWords] at h

theorem statement_of_operand {c d e : Cursor} {tree : Tree} {stop depth : Nat} (hw : PlainName w)
    (ha : a ∈ nameEnds) (hstart : c.skipExtras = d.on (w ++ a :: t) pos)
    (h : operandRule (grammar (depth + 2)) true (d.on (w ++ a :: t) pos) =
      some (tree, e.on (';' :: s) stop)) :
    grammar (depth + 5) .statement c = some (tree, e.on s (stop + 1)) := by
  have hword : wordAt (Text.ofChars (w ++ a :: t)) = String.ofList w :=
    wordAt_name hw.name (endsWord_of_nameEnd ha t)
  have hstatement : expressionStatement (grammar (depth + 4)) (d.on (w ++ a :: t) pos) =
      some (tree, e.on s (stop + 1)) := expressionStatement_of_operand h
  change statementRule (grammar (depth + 4)) c = _
  simp [statementRule, tokenStart_of_fresh hstart (hw.fresh (a :: t)), hword, hw.ne_nil,
    wordStatement_plain _ hw.free, plainStatement, labelled_name hw ha, hstatement]

end Statements

structure Link where
  nameStart : Nat
  name : String
  args : List Tree

def Link.call (start : Nat) (object : Tree) (l : Link) : Tree :=
  .call start (.member object l.nameStart l.name) l.args

/-- Calls one after the other on an object. They all start where the object does. -/
def chain (start : Nat) (object : Tree) (links : List Link) : Tree :=
  links.foldl (Link.call start) object

/-- The text of a member that is called. -/
structure MemberCall where
  member : List Char
  first : Argument
  more : List Argument

namespace MemberCall

structure Valid (m : MemberCall) : Prop where
  member : isName m.member = true
  first : m.first.Valid
  more : ∀ x ∈ m.more, x.Valid

def text (m : MemberCall) : List Char :=
  '.' :: (m.member ++ '(' :: (m.first.text ++ (moreArguments m.more ++ [')'])))

def link (pos : Nat) (m : MemberCall) : Link where
  nameStart := pos + 1
  name := String.ofList m.member
  args := argumentTrees (pos + 1 + Text.width m.member + 1) (m.first :: m.more)

variable {m : MemberCall}

theorem text_append (m : MemberCall) (s : List Char) : m.text ++ s =
    '.' :: (m.member ++ '(' :: (m.first.text ++ (moreArguments m.more ++ ')' :: s))) := by
  simp [text]

theorem width_text (m : MemberCall) : Text.width m.text =
    1 + Text.width m.member + 1 + Text.width (m.first.text ++ moreArguments m.more) + 1 := by
  have hdot : '.'.utf8Size = 1 := rfl
  have hopen : '('.utf8Size = 1 := rfl
  have hclose : ')'.utf8Size = 1 := rfl
  simp only [text, Text.width_append, Text.width_cons, Text.width_nil, hdot, hopen, hclose]
  omega

theorem trailing_on (hm : m.Valid) (c : Cursor) (start depth fuel : Nat) (h : Head) (s : List Char)
    (pos : Nat) :
    trailing (grammar (depth + 2)) last start (fuel + 2) h (c.on (m.text ++ s) pos) =
      trailing (grammar (depth + 2)) last start fuel
        ⟨(m.link pos).call start h.tree, false, false⟩ (c.on s (pos + Text.width m.text)) := by
  have hparen : EndsWord ('(' :: (m.first.text ++ (moreArguments m.more ++ ')' :: s))) :=
    endsWord_of_nameEnd (by decide) _
  have hargs := arguments_on (s := s) hm.first hm.more c depth (pos + 1 + Text.width m.member)
  rw [text_append, trailing_member c hm.member hparen, trailing_call hargs, width_text]
  simp only [Link.call, link, Nat.add_assoc]

end MemberCall

section Chains
variable {ms : List MemberCall}

def chainText (ms : List MemberCall) : List Char := ms.flatMap MemberCall.text

def links (pos : Nat) : List MemberCall → List Link
  | [] => []
  | m :: ms => m.link pos :: links (pos + Text.width m.text) ms

theorem exists_of_mem_links {l : Link} (h : l ∈ links pos ms) :
    ∃ m ∈ ms, ∃ place, pos ≤ place ∧ l = m.link place := by
  induction ms generalizing pos with
  | nil => cases h
  | cons m ms ih =>
    obtain rfl | h := List.mem_cons.mp h
    · exact ⟨m, by simp, pos, Nat.le_refl pos, rfl⟩
    · obtain ⟨k, hk, place, hle, rfl⟩ := ih h
      exact ⟨k, List.mem_cons_of_mem m hk, place, Nat.le_of_add_right_le hle, rfl⟩

theorem pairwise_links (pos : Nat) (ms : List MemberCall) :
    (links pos ms).Pairwise fun l k => l.nameStart < k.nameStart := by
  induction ms generalizing pos with
  | nil => exact .nil
  | cons m ms ih =>
    refine .cons (fun k hk => ?_) (ih _)
    obtain ⟨m', -, place, hle, rfl⟩ := exists_of_mem_links hk
    rw [MemberCall.width_text] at hle
    simp only [MemberCall.link]
    omega

theorem trailing_chain (hms : ∀ m ∈ ms, m.Valid) (c : Cursor) (ha : a ∈ closers) (last : Bool)
    (start depth : Nat) {fuel : Nat} (hf : 2 * ms.length ≤ fuel) (h : Head) (pos : Nat) :
    ∃ h' : Head, h'.tree = chain start h.tree (links pos ms) ∧
      trailing (grammar (depth + 2)) last start fuel h (c.on (chainText ms ++ a :: s) pos) =
        some (h', c.on (a :: s) (pos + Text.width (chainText ms))) := by
  induction ms generalizing fuel h pos with
  | nil => exact ⟨h, rfl, trailing_stop c ha start fuel h pos⟩
  | cons m ms ih =>
    rw [List.forall_mem_cons] at hms
    obtain ⟨n, rfl⟩ : ∃ n, fuel = n + 2 := ⟨fuel - 2, by rw [List.length_cons] at hf; omega⟩
    have hn : 2 * ms.length ≤ n := by
      rw [List.length_cons] at hf
      omega
    obtain ⟨h', htree, htrail⟩ := ih hms.2 hn
      ⟨(m.link pos).call start h.tree, false, false⟩ (pos + Text.width m.text)
    have htext : chainText (m :: ms) = m.text ++ chainText ms := List.flatMap_cons
    refine ⟨h', htree, ?_⟩
    rw [htext, List.append_assoc, MemberCall.trailing_on hms.1, htrail, Text.width_append,
      Nat.add_assoc]

theorem chainText_first (ms : List MemberCall) (ha : a ∈ closers) (s : List Char) :
    ∃ b t, chainText ms ++ a :: s = b :: t ∧ b ∈ nameEnds := by
  cases ms with
  | nil => exact ⟨a, s, rfl, nameEnd_of_closer ha⟩
  | cons m ms => exact ⟨'.', _, rfl, by decide⟩

theorem length_le_chainText (ms : List MemberCall) : 2 * ms.length ≤ (chainText ms).length := by
  induction ms with
  | nil => exact Nat.zero_le _
  | cons m ms ih =>
    simp only [chainText, List.flatMap_cons, List.length_append, List.length_cons,
      MemberCall.text] at ih ⊢
    omega

theorem operandRule_chain (hw : PlainName w) (hms : ∀ m ∈ ms, m.Valid) (c : Cursor)
    (ha : a ∈ closers) (last : Bool) (depth pos : Nat) :
    operandRule (grammar (depth + 2)) last (c.on (w ++ (chainText ms ++ a :: s)) pos) =
      some (chain pos (.identifier (String.ofList w)) (links (pos + Text.width w) ms),
        c.on (a :: s) (pos + Text.width (w ++ chainText ms))) := by
  obtain ⟨b, t, htext, hb⟩ := chainText_first ms ha s
  have hhead := @operandRule_name_head b [] t (grammar (depth + 2)) last w c gap_nil hw hb pos
  have hfuel : 2 * ms.length ≤ (Text.ofChars (b :: t)).length + 1 := by
    have hle := length_le_chainText ms
    rw [← htext]
    simp only [Text.ofChars, List.length_map, List.length_append]
    omega
  obtain ⟨h, htree, htrail⟩ := trailing_chain (s := s) hms c ha last pos depth hfuel
    ⟨.identifier (String.ofList w), true, false⟩ (pos + Text.width w)
  rw [htext] at htrail ⊢
  rw [List.nil_append, Text.width_nil, Nat.add_zero] at hhead
  rw [hhead, Text.width_append, ← Nat.add_assoc]
  simp [htrail, anyAssignSign_stop c ha, htree]

theorem statement_chain (hw : PlainName w) (hms : ∀ m ∈ ms, m.Valid) {c d : Cursor}
    (h : c.skipExtras = d.on (w ++ (chainText ms ++ ';' :: s)) pos) (depth : Nat) :
    grammar (depth + 5) .statement c =
      some (chain pos (.identifier (String.ofList w)) (links (pos + Text.width w) ms),
        d.on s (pos + Text.width (w ++ chainText ms) + 1)) := by
  obtain ⟨b, t, htext, hb⟩ := chainText_first ms (by decide : ';' ∈ closers) s
  have hoperand := operandRule_chain (s := s) hw hms d (by decide : ';' ∈ closers) true depth pos
  rw [htext] at h hoperand
  exact statement_of_operand hw hb h hoperand

end Chains

structure Call where
  object : List Char
  member : List Char
  first : Argument
  more : List Argument

namespace Call

structure Valid (k : Call) : Prop where
  object : PlainName k.object
  member : isName k.member = true
  first : k.first.Valid
  more : ∀ x ∈ k.more, x.Valid

def inner (k : Call) : List Char :=
  '.' :: (k.member ++ '(' :: (k.first.text ++ moreArguments k.more))

def text (k : Call) : List Char := k.object ++ (k.inner ++ [')'])

def memberStart (k : Call) (start : Nat) : Nat := start + Text.width k.object + 1

def tree (k : Call) (start : Nat) : Tree :=
  .call start (.member (.identifier (String.ofList k.object)) (k.memberStart start)
    (String.ofList k.member))
    (argumentTrees (k.memberStart start + Text.width k.member + 1) (k.first :: k.more))

variable {k : Call}

theorem text_append (k : Call) (s : List Char) :
    k.text ++ s = k.object ++ '.' :: (k.member ++ '(' ::
      (k.first.text ++ (moreArguments k.more ++ ')' :: s))) := by
  simp [text, inner]

def tail (k : Call) : MemberCall := ⟨k.member, k.first, k.more⟩

theorem text_eq (k : Call) : k.text = k.object ++ chainText [k.tail] := by
  simp [text, inner, chainText, MemberCall.text, tail]

theorem statement_call (hk : k.Valid) {c d : Cursor}
    (h : c.skipExtras = d.on (k.text ++ ';' :: s) pos) (depth : Nat) :
    grammar (depth + 5) .statement c = some (k.tree pos, d.on s (pos + Text.width k.text + 1)) := by
  have htail : ∀ m ∈ [k.tail], m.Valid := by
    simpa using (⟨hk.member, hk.first, hk.more⟩ : k.tail.Valid)
  rw [text_eq, List.append_assoc] at h
  rw [text_eq, statement_chain hk.object htail h]
  rfl

end Call

end RouteBook.Source
