import RouteBook.Proofs.Except
import RouteBook.Proofs.Json.Syntax

/-! The texts that are read as JSON. Main statement: they are just the texts of the grammar, each
read as the value that the grammar gives it; a text of the grammar is refused only where a whole
number in it is too long. -/
namespace RouteBook.Json
open Outcome
variable {short : Bool} {s t rest : List Char} {v : Value} {vs : List Value}
  {es : List (Value × Value)}

section Grammar

mutual
/-- The texts of values, with the values that they stand for. Where `short` is set, whole numbers
that are too long to be read are left out. -/
inductive Spells (short : Bool) : List Char → Value → Prop where
  | word {s : List Char} {v : Value} (h : (s, v) ∈ words) : Spells short s v
  | number (n : Numeral) (h : short = true → n.isShort = true) : Spells short n.text n.toValue
  | string (s : List Spelling) : Spells short (quotedText s) (textOf (codePoints s))
  | emptyList (gap : Gap) : Spells short ('[' :: (gap.1 ++ [']'])) (.list [])
  | list {s : List Char} {vs : List Value} (h : SpellsItems short s vs) :
      Spells short ('[' :: (s ++ [']'])) (.list vs)
  | emptyMap (gap : Gap) : Spells short ('\x7b' :: (gap.1 ++ ['\x7d'])) (.map [])
  | map {s : List Char} {es : List (Value × Value)} (h : SpellsMembers short s es) :
      Spells short ('\x7b' :: (s ++ ['\x7d'])) (.map (Pairs.ofList es))
inductive SpellsItems (short : Bool) : List Char → List Value → Prop where
  | last (before after : Gap) {s : List Char} {v : Value} (h : Spells short s v) :
      SpellsItems short (before.1 ++ (s ++ after.1)) [v]
  | next (before after : Gap) {s t : List Char} {v : Value} {vs : List Value}
      (h : Spells short s v) (ht : SpellsItems short t vs) :
      SpellsItems short (before.1 ++ (s ++ (after.1 ++ ',' :: t))) (v :: vs)
inductive SpellsMembers (short : Bool) : List Char → List (Value × Value) → Prop where
  | last (before : Gap) (key : List Spelling) (middle ahead after : Gap) {s : List Char}
      {v : Value} (h : Spells short s v) :
      SpellsMembers short
        (before.1 ++ (quotedText key ++ (middle.1 ++ ':' :: (ahead.1 ++ (s ++ after.1)))))
        [(textOf (codePoints key), v)]
  | next (before : Gap) (key : List Spelling) (middle ahead after : Gap) {s t : List Char}
      {v : Value} {es : List (Value × Value)} (h : Spells short s v)
      (ht : SpellsMembers short t es) :
      SpellsMembers short (before.1 ++ (quotedText key ++ (middle.1 ++ ':' :: (ahead.1 ++
        (s ++ (after.1 ++ ',' :: t)))))) ((textOf (codePoints key), v) :: es)
end

/-- A text that stands for a value: the text of the value with white space around it. -/
def Denotes (short : Bool) (s : List Char) (v : Value) : Prop :=
  ∃ (before after : Gap) (t : List Char), s = before.1 ++ (t ++ after.1) ∧ Spells short t v

theorem Spells.opens (h : Spells short s v) : ∃ c u, s = c :: u ∧ Opens c := by
  cases h with
  | word h =>
    simp only [words, List.mem_cons, Prod.mk.injEq, List.not_mem_nil, or_false] at h
    rcases h with h | h | h | h | h | h <;>
      exact ⟨_, _, h.1, by decide, by decide, by decide⟩
  | number n =>
    obtain ⟨c, u, hc, ho, -⟩ := n.text_cons
    exact ⟨c, u, hc, ho⟩
  | string s => exact ⟨'"', _, rfl, by decide, by decide, by decide⟩
  | emptyList gap => exact ⟨'[', _, rfl, by decide, by decide, by decide⟩
  | list h => exact ⟨'[', _, rfl, by decide, by decide, by decide⟩
  | emptyMap gap => exact ⟨'\x7b', _, rfl, by decide, by decide, by decide⟩
  | map h => exact ⟨'\x7b', _, rfl, by decide, by decide, by decide⟩

end Grammar

section Gaps

theorem skipSpace_cons {c : Char} (s : List Char) (h : isSpace c = false) :
    skipSpace (c :: s) = c :: s := by
  rw [skipSpace, List.dropWhile_cons_of_neg (by simp [h])]

theorem skipSpace_gap (gap : Gap) (s : List Char) : skipSpace (gap.1 ++ s) = skipSpace s :=
  List.dropWhile_append_of_pos (by simpa using gap.2)

theorem skipSpace_gap_cons (gap : Gap) {c : Char} (s : List Char) (h : isSpace c = false) :
    skipSpace (gap.1 ++ c :: s) = c :: s := by
  rw [skipSpace_gap, skipSpace_cons s h]

theorem exists_gap (s : List Char) : ∃ gap : Gap, s = gap.1 ++ skipSpace s :=
  ⟨⟨s.takeWhile isSpace, List.all_takeWhile⟩, List.takeWhile_append_dropWhile.symm⟩

theorem Spells.skipSpace_append (h : Spells short s v) (rest : List Char) :
    skipSpace (s ++ rest) = s ++ rest := by
  obtain ⟨c, u, rfl, ho⟩ := h.opens
  exact skipSpace_cons (u ++ rest) ho.1

theorem skipSpace_quotedText (key : List Spelling) (rest : List Char) :
    skipSpace (quotedText key ++ rest) = quotedText key ++ rest :=
  skipSpace_cons _ (by decide)

theorem SpellsItems.ne_bracket (h : SpellsItems short s vs) (rest more : List Char) :
    skipSpace (s ++ rest) ≠ ']' :: more := by
  have hopen {s : List Char} {v : Value} (before : Gap) (h : Spells short s v) (t : List Char) :
      skipSpace (before.1 ++ (s ++ t)) ≠ ']' :: more := by
    rw [skipSpace_gap, h.skipSpace_append]
    obtain ⟨c, u, rfl, ho⟩ := h.opens
    exact fun he => ho.2.1 (List.cons.inj he).1
  cases h with
  | last before after h => simpa only [List.append_assoc] using hopen before h _
  | next before after h ht => simpa only [List.append_assoc] using hopen before h _

theorem SpellsMembers.ne_brace (h : SpellsMembers short s es) (rest more : List Char) :
    skipSpace (s ++ rest) ≠ '\x7d' :: more := by
  have hopen (before : Gap) (key : List Spelling) (t : List Char) :
      skipSpace (before.1 ++ (quotedText key ++ t)) ≠ '\x7d' :: more := by
    rw [skipSpace_gap, skipSpace_quotedText]
    exact fun he => absurd (List.cons.inj he).1 (by decide)
  cases h with
  | last before key => simpa only [List.append_assoc] using hopen before key _
  | next before key => simpa only [List.append_assoc] using hopen before key _

end Gaps

section Completeness

theorem value_items {fuel : Nat} {s : List Char} (h : ∀ more, skipSpace s ≠ ']' :: more) :
    value (fuel + 1) ('[' :: s) =
      (fun r => (.list r.1, r.2)) <$> elements fuel (skipSpace s) := by
  rw [value]
  split
  · rename_i more hs
    exact absurd hs (h more)
  · rfl

theorem value_entries {fuel : Nat} {s : List Char} (h : ∀ more, skipSpace s ≠ '\x7d' :: more) :
    value (fuel + 1) ('\x7b' :: s) =
      (fun r => (.map (Pairs.ofList r.1), r.2)) <$> members fuel (skipSpace s) := by
  rw [value]
  split
  · rename_i more hs
    exact absurd hs (h more)
  · rfl

/-- A result is this one, or the report of a long number where these are not left out. -/
def Gives {α : Type} (short : Bool) (a : α) : Except Fault α → Prop :=
  Meets (fun f => short = false ∧ f.issue = .tooManyDigits) (· = a)

theorem Gives.bind {α β : Type} {a : α} {b : β} {x : Except Fault α} {f : α → Except Fault β}
    (h : Gives short a x) (hf : Gives short b (f a)) : Gives short b (x >>= f) :=
  Meets.bind h fun _ he => he ▸ hf

theorem Gives.map {α β : Type} {a : α} {x : Except Fault α} (h : Gives short a x) (f : α → β) :
    Gives short (f a) (f <$> x) := by
  cases x with
  | ok b => exact congrArg f h
  | error e => exact h

theorem Gives.eq_ok {α : Type} {a : α} {x : Except Fault α} (h : Gives true a x) : x = .ok a := by
  cases x with
  | ok b => exact congrArg Except.ok h
  | error f => cases h.1

theorem value_word (h : (s, v) ∈ words) (rest : List Char) (fuel : Nat) :
    value (fuel + 1) (s ++ rest) = .ok (v, rest) := by
  simp only [words, List.mem_cons, Prod.mk.injEq, List.not_mem_nil, or_false] at h
  rcases h with ⟨rfl, rfl⟩ | ⟨rfl, rfl⟩ | ⟨rfl, rfl⟩ | ⟨rfl, rfl⟩ | ⟨rfl, rfl⟩ | ⟨rfl, rfl⟩ <;> rfl

theorem value_number (n : Numeral) (rest : List Char) (fuel : Nat) :
    value (fuel + 1) (n.text ++ rest) = atom (n.text ++ rest) := by
  obtain ⟨c, u, hc, -, -, hquote, hbrace, hbracket⟩ := n.text_cons
  rw [hc, List.cons_append, value] <;> simp [hquote, hbrace, hbracket]

theorem gives_number (n : Numeral) (h : short = true → n.isShort = true)
    (hrest : EndsNumber rest) (fuel : Nat) :
    Gives short (n.toValue, rest) (value (fuel + 1) (n.text ++ rest)) := by
  rw [value_number, atom_number n hrest]
  split
  · exact rfl
  · next hlong => exact ⟨Bool.eq_false_iff.mpr fun hs => hlong (h hs), rfl⟩

theorem gives_last {fuel : Nat} {after : List Char} (hv : Gives short (v, after) (value fuel s))
    (ha : skipSpace after = ']' :: rest) : Gives short ([v], rest) (elements (fuel + 1) s) := by
  rw [elements]
  refine hv.bind ?_
  simp only [ha]
  exact rfl

theorem gives_next {fuel : Nat} {after more : List Char}
    (hv : Gives short (v, after) (value fuel s)) (ha : skipSpace after = ',' :: more)
    (hm : Gives short (vs, rest) (elements fuel (skipSpace more))) :
    Gives short (v :: vs, rest) (elements (fuel + 1) s) := by
  rw [elements]
  refine hv.bind ?_
  simp only [ha]
  exact hm.bind rfl

section Member
variable {fuel : Nat} {key : List Spelling} {middle ahead : Gap} {after : List Char}

theorem string_key (key : List Spelling) (middle ahead : Gap) (s : List Char) :
    string (key.flatMap Spelling.text ++ '"' :: (middle.1 ++ ':' :: (ahead.1 ++ s))) =
      .ok (textOf (codePoints key), middle.1 ++ ':' :: (ahead.1 ++ s)) :=
  string_quotedText _ key

theorem gives_last_member (hs : skipSpace s = s) (hv : Gives short (v, after) (value fuel s))
    (ha : skipSpace after = '\x7d' :: rest) :
    Gives short ([(textOf (codePoints key), v)], rest)
      (members (fuel + 1) (quotedText key ++ (middle.1 ++ ':' :: (ahead.1 ++ s)))) := by
  simp only [quotedText, List.cons_append, List.append_assoc, List.nil_append, members, string_key,
    ok_bind, skipSpace_gap_cons middle _ (by decide : isSpace ':' = false), skipSpace_gap, hs]
  refine hv.bind ?_
  simp only [ha]
  exact rfl

theorem gives_next_member {more : List Char} (hs : skipSpace s = s)
    (hv : Gives short (v, after) (value fuel s)) (ha : skipSpace after = ',' :: more)
    (hm : Gives short (es, rest) (members fuel (skipSpace more))) :
    Gives short ((textOf (codePoints key), v) :: es, rest)
      (members (fuel + 1) (quotedText key ++ (middle.1 ++ ':' :: (ahead.1 ++ s)))) := by
  simp only [quotedText, List.cons_append, List.append_assoc, List.nil_append, members, string_key,
    ok_bind, skipSpace_gap_cons middle _ (by decide : isSpace ':' = false), skipSpace_gap, hs]
  refine hv.bind ?_
  simp only [ha]
  exact hm.bind rfl

end Member

mutual

theorem Spells.gives {s : List Char} {v : Value} : Spells short s v → ∀ (rest : List Char)
    (fuel : Nat), EndsNumber rest → s.length ≤ fuel →
    Gives short (v, rest) (value (fuel + 1) (s ++ rest))
  | .word h, rest, fuel, _, _ => by
    rw [value_word h]
    exact rfl
  | .number n h, rest, fuel, hrest, _ => gives_number n h hrest fuel
  | .string s, rest, fuel, _, _ => by
    simp only [quotedText, List.cons_append, List.append_assoc, List.nil_append, value]
    rw [string_quotedText]
    exact rfl
  | .emptyList gap, rest, fuel, _, _ => by
    simp only [List.cons_append, List.append_assoc, List.nil_append, value,
      skipSpace_gap_cons gap rest (by decide : isSpace ']' = false)]
    exact rfl
  | .list h, rest, fuel, _, hf => by
    simp only [List.length_cons, List.length_append, List.length_nil] at hf
    obtain ⟨fuel, rfl⟩ := Nat.exists_eq_add_of_le' (show 2 ≤ fuel by omega)
    simp only [List.cons_append, List.append_assoc, List.nil_append]
    rw [value_items (h.ne_bracket _)]
    exact (h.gives rest fuel (by omega)).map _
  | .emptyMap gap, rest, fuel, _, _ => by
    simp only [List.cons_append, List.append_assoc, List.nil_append, value,
      skipSpace_gap_cons gap rest (by decide : isSpace '\x7d' = false)]
    exact rfl
  | .map h, rest, fuel, _, hf => by
    simp only [List.length_cons, List.length_append, List.length_nil] at hf
    obtain ⟨fuel, rfl⟩ := Nat.exists_eq_add_of_le' (show 2 ≤ fuel by omega)
    simp only [List.cons_append, List.append_assoc, List.nil_append]
    rw [value_entries (h.ne_brace _)]
    exact (h.gives rest fuel (by omega)).map _

theorem SpellsItems.gives {s : List Char} {vs : List Value} : SpellsItems short s vs →
    ∀ (rest : List Char) (fuel : Nat), s.length ≤ fuel →
    Gives short (vs, rest) (elements (fuel + 2) (skipSpace (s ++ ']' :: rest)))
  | .last before after h, rest, fuel, hf => by
    simp only [List.length_append] at hf
    have hv := h.gives (after.1 ++ ']' :: rest) fuel (endsNumber_gap after (by simp)) (by omega)
    simp only [List.append_assoc]
    rw [skipSpace_gap, h.skipSpace_append]
    exact gives_last hv (skipSpace_gap_cons after rest (by decide))
  | .next (t := t) before after h ht, rest, fuel, hf => by
    simp only [List.length_append, List.length_cons] at hf
    obtain ⟨fuel, rfl⟩ := Nat.exists_eq_add_of_le' (show 1 ≤ fuel by omega)
    have hv := h.gives (after.1 ++ ',' :: (t ++ ']' :: rest)) (fuel + 1)
      (endsNumber_gap after (by simp)) (by omega)
    simp only [List.append_assoc, List.cons_append]
    rw [skipSpace_gap, h.skipSpace_append]
    exact gives_next hv (skipSpace_gap_cons after _ (by decide)) (ht.gives rest fuel (by omega))

theorem SpellsMembers.gives {s : List Char} {es : List (Value × Value)} : SpellsMembers short s es →
    ∀ (rest : List Char) (fuel : Nat), s.length ≤ fuel →
    Gives short (es, rest) (members (fuel + 2) (skipSpace (s ++ '\x7d' :: rest)))
  | .last before key middle ahead after h, rest, fuel, hf => by
    simp only [List.length_append, List.length_cons] at hf
    have hv := h.gives (after.1 ++ '\x7d' :: rest) fuel (endsNumber_gap after (by simp)) (by omega)
    simp only [List.append_assoc, List.cons_append]
    rw [skipSpace_gap, skipSpace_quotedText]
    exact gives_last_member (h.skipSpace_append _) hv (skipSpace_gap_cons after rest (by decide))
  | .next (t := t) before key middle ahead after h ht, rest, fuel, hf => by
    simp only [List.length_append, List.length_cons] at hf
    obtain ⟨fuel, rfl⟩ := Nat.exists_eq_add_of_le' (show 1 ≤ fuel by omega)
    have hv := h.gives (after.1 ++ ',' :: (t ++ '\x7d' :: rest)) (fuel + 1)
      (endsNumber_gap after (by simp)) (by omega)
    simp only [List.append_assoc, List.cons_append]
    rw [skipSpace_gap, skipSpace_quotedText]
    exact gives_next_member (h.skipSpace_append _) hv (skipSpace_gap_cons after _ (by decide))
      (ht.gives rest fuel (by omega))

end

end Completeness

section Soundness

def Spelled (s : List Char) (codes : List Nat) (rest : List Char) : Prop :=
  ∃ spellings : List Spelling,
    s = spellings.flatMap Spelling.text ++ '"' :: rest ∧ codes = codePoints spellings

theorem spelled_append {start : List Char} {codes : List Nat} (x : Spelling)
    (ih : ∀ {codes : List Nat}, stringCodes start s = .ok (codes, rest) → Spelled s codes rest)
    (h : (stringCodes start s >>= fun r => pure (x.codePoint :: r.1, r.2)) = .ok (codes, rest)) :
    Spelled (x.text ++ s) codes rest := by
  obtain ⟨⟨codes, rest⟩, hmore, he⟩ := (bind_eq_ok_iff _ _ _).mp h
  cases he
  obtain ⟨spellings, rfl, rfl⟩ := ih hmore
  exact ⟨x :: spellings, (List.append_assoc _ _ _).symm, rfl⟩

theorem spelled_of_stringCodes {start : List Char} {codes : List Nat}
    (h : stringCodes start s = .ok (codes, rest)) : Spelled s codes rest := by
  fun_induction stringCodes start s generalizing codes with
  | case2 rest =>
    cases h
    exact ⟨[], rfl, rfl⟩
  | case4 a b c d u n w hdigits ih =>
    simp only [fourDigits?] at hdigits
    split at hdigits
    · next hall =>
      cases hdigits
      exact spelled_append (.code a b c d (Bool.and_eq_true _ _ ▸ hall).1) ih h
    · cases hdigits
  | case7 c u _ _ ch hletter ih => exact spelled_append (.letter c ch hletter) ih h
  | case10 c u hquote hlone _ _ hother hcontrol ih =>
    have hbackslash : c ≠ '\\' := by
      cases u with
      | nil => exact fun hc => hlone hc rfl
      | cons d u => exact fun hc => hother d u hc rfl
    exact spelled_append (.raw c ⟨by omega, hquote, hbackslash⟩) ih h
  | _ => cases h

theorem string_eq_ok (h : string s = .ok (v, rest)) : ∃ spellings : List Spelling,
    s = spellings.flatMap Spelling.text ++ '"' :: rest ∧ v = textOf (codePoints spellings) := by
  obtain ⟨⟨codes, rest'⟩, hcodes, he⟩ := (bind_eq_ok_iff _ _ _).mp h
  cases he
  obtain ⟨spellings, hs, rfl⟩ := spelled_of_stringCodes hcodes
  exact ⟨spellings, hs, rfl⟩

theorem takeWhile_append_drop (p : Char → Bool) (s : List Char) :
    s.takeWhile p ++ s.drop (s.takeWhile p).length = s :=
  List.prefix_iff_eq_append.mp (List.takeWhile_prefix p)

theorem wholeDigits_eq {d : Char} {ds : List Char} (h : wholeDigits s = d :: ds) :
    (d :: ds = ['0'] ∨ ∃ e es, d :: ds = e :: es ∧ e ≠ '0' ∧ (e :: es).all Char.isDigit = true) ∧
    s = d :: ds ++ s.drop (d :: ds).length := by
  unfold wholeDigits at h
  split at h
  · cases h
    exact ⟨.inl rfl, rfl⟩
  · next hzero =>
    have hall : (d :: ds).all Char.isDigit = true := by
      rw [← h]
      exact List.all_takeWhile
    have hs := takeWhile_append_drop Char.isDigit s
    rw [h] at hs
    refine ⟨.inr ⟨d, ds, rfl, ?_, hall⟩, hs.symm⟩
    rintro rfl
    exact hzero _ hs.symm

theorem fraction_eq {fs : List Char} (h : fraction s = (fs, rest)) :
    fs.all Char.isDigit = true ∧ ∀ n : Numeral, n.fraction = fs → s = n.fractionText ++ rest := by
  unfold fraction at h
  split at h
  · next t =>
    split at h
    · cases h
      refine ⟨rfl, fun n hn => ?_⟩
      rw [Numeral.fractionText, hn]
      rfl
    · next hnil =>
      cases h
      refine ⟨List.all_takeWhile, fun n hn => ?_⟩
      obtain ⟨d, ds, hd⟩ := List.exists_cons_of_ne_nil hnil
      have ht := takeWhile_append_drop Char.isDigit t
      rw [hd] at ht hn ⊢
      rw [Numeral.fractionText, hn]
      exact congrArg ('.' :: ·) ht.symm
  · cases h
    refine ⟨rfl, fun n hn => ?_⟩
    rw [Numeral.fractionText, hn]
    rfl

/-- The sign in front of an exponent's digits, if there is one. -/
theorem exists_sign (s : List Char) : ∃ sign body, s = Exponent.signText sign ++ body ∧
    (sign = none → ∀ u, body ≠ '-' :: u ∧ body ≠ '+' :: u) := by
  cases s with
  | nil => exact ⟨none, [], rfl, by simp⟩
  | cons c s =>
    by_cases hminus : c = '-'
    · exact ⟨some true, s, by rw [hminus]; rfl, by simp⟩
    · by_cases hplus : c = '+'
      · exact ⟨some false, s, by rw [hplus]; rfl, by simp⟩
      · exact ⟨none, c :: s, rfl, by simp [hminus, hplus]⟩

theorem exponent_signed {mark : Char} (hmark : (mark == 'e' || mark == 'E') = true)
    (sign : Option Bool) {body : List Char}
    (h : sign = none → ∀ u, body ≠ '-' :: u ∧ body ≠ '+' :: u) :
    exponent (mark :: (Exponent.signText sign ++ body)) =
      if body.takeWhile Char.isDigit = [] then
        (none, mark :: (Exponent.signText sign ++ body))
      else
        let n : Int := decimal (body.takeWhile Char.isDigit)
        (some (if sign = some true then -n else n),
          body.drop (body.takeWhile Char.isDigit).length) := by
  have hmark' : mark = 'e' ∨ mark = 'E' := by simpa using hmark
  cases sign with
  | some minus =>
    cases hd : body.takeWhile Char.isDigit <;> cases minus <;>
      simp [exponent, hmark', Exponent.signText, hd]
  | none =>
    cases body with
    | nil => simp [exponent, Exponent.signText]
    | cons c body =>
      obtain ⟨hminus, hplus⟩ := h rfl body
      have hne : c ≠ '-' ∧ c ≠ '+' := ⟨fun hc => hminus (hc ▸ rfl), fun hc => hplus (hc ▸ rfl)⟩
      cases hd : (c :: body).takeWhile Char.isDigit <;>
        simp [exponent, hmark', Exponent.signText, hne, hd]

theorem exponent_eq {e : Option Int} (h : exponent s = (e, rest)) : ∃ x : Option Exponent,
    x.map Exponent.toInt = e ∧ s = (x.map Exponent.text).getD [] ++ rest := by
  have hnone : (none, s) = (e, rest) → ∃ x : Option Exponent,
      x.map Exponent.toInt = e ∧ s = (x.map Exponent.text).getD [] ++ rest := by
    rintro ⟨⟩
    exact ⟨none, rfl, rfl⟩
  cases s with
  | nil => exact hnone h
  | cons mark s =>
    by_cases hmark : (mark == 'e' || mark == 'E') = true
    · obtain ⟨sign, body, rfl, hsign⟩ := exists_sign s
      rw [exponent_signed hmark sign hsign] at h
      split at h
      · exact hnone h
      · next hne =>
        cases h
        refine ⟨some ⟨mark, sign, body.takeWhile Char.isDigit, by simpa using hmark,
          List.all_takeWhile, hne⟩, rfl, ?_⟩
        have hbody := takeWhile_append_drop Char.isDigit body
        simpa [Exponent.text] using hbody.symm
    · unfold exponent at h
      simp only [hmark, Bool.false_eq_true, if_false] at h
      exact hnone h

/-- Where there are digits, they begin a number, which is read up to its end unless it is too
long. -/
theorem number_eq (start : List Char) (negative : Bool) (s : List Char) :
    number start negative s = fail .value start ∨ ∃ (n : Numeral) (rest : List Char),
      n.negative = negative ∧ s = n.whole ++ (n.tailText ++ rest) ∧ number start negative s =
        if n.isShort then .ok (n.toValue, rest) else fail .tooManyDigits start := by
  cases hw : wholeDigits s with
  | nil => exact .inl (by rw [number, hw])
  | cons d ds =>
    obtain ⟨hwhole, hs⟩ := wholeDigits_eq hw
    cases hf : fraction (s.drop (d :: ds).length) with
    | mk fs tail =>
      obtain ⟨hfs, htail⟩ := fraction_eq hf
      cases he : exponent tail with
      | mk e rest =>
        obtain ⟨x, rfl, hx⟩ := exponent_eq he
        let n : Numeral := ⟨negative, d :: ds, fs, x, hwhole, hfs⟩
        have htext : s = n.whole ++ (n.tailText ++ rest) := by
          rw [Numeral.tailText, List.append_assoc, Numeral.exponentText, ← hx, ← htail n rfl]
          exact hs
        exact .inr ⟨n, rest, rfl, htext, number_of_parts n start hw hf he⟩

theorem exists_atom_eq_number (h : (words.find? fun w => w.1.isPrefixOf s) = none) :
    ∃ (negative : Bool) (t : List Char), s = (if negative then ['-'] else []) ++ t ∧
      atom s = number s negative t := by
  unfold atom
  rw [h]
  dsimp only
  split
  · exact ⟨true, _, rfl, rfl⟩
  · exact ⟨false, _, rfl, rfl⟩

theorem atom_cases (s : List Char) :
    (∃ w v rest, s = w ++ rest ∧ (w, v) ∈ words ∧ atom s = .ok (v, rest)) ∨
    (∃ (n : Numeral) (rest : List Char), s = n.text ++ rest ∧
      atom s = if n.isShort then .ok (n.toValue, rest) else fail .tooManyDigits s) ∨
    atom s = fail .value s := by
  cases hfind : words.find? fun w => w.1.isPrefixOf s with
  | some word =>
    have hprefix : word.1.isPrefixOf s = true :=
      List.find?_some (p := fun w : List Char × Value => w.1.isPrefixOf s) hfind
    have hs := List.prefix_iff_eq_append.mp (List.isPrefixOf_iff_prefix.mp hprefix)
    refine .inl ⟨word.1, word.2, _, hs.symm, List.mem_of_find?_eq_some hfind, ?_⟩
    unfold atom
    rw [hfind]
  | none =>
    obtain ⟨negative, t, hs, ha⟩ := exists_atom_eq_number hfind
    rcases number_eq s negative t with hnone | ⟨n, rest, hneg, ht, hn⟩
    · exact .inr (.inr (ha.trans hnone))
    · refine .inr (.inl ⟨n, rest, ?_, ha.trans hn⟩)
      rw [Numeral.text, Numeral.signText, hneg, List.append_assoc, List.append_assoc, ← ht]
      exact hs

theorem atom_eq_ok (h : atom s = .ok (v, rest)) : ∃ t, s = t ++ rest ∧ Spells true t v := by
  rcases atom_cases s with ⟨w, u, tail, hs, hw, ha⟩ | ⟨n, tail, hs, ha⟩ | ha
  · cases ha.symm.trans h
    exact ⟨w, hs, .word hw⟩
  · have hn := ha.symm.trans h
    split at hn
    · next hshort =>
      cases hn
      exact ⟨n.text, hs, .number n fun _ => hshort⟩
    · cases hn
  · cases ha.symm.trans h

def Gap.append (g h : Gap) : Gap :=
  ⟨g.1 ++ h.1, by rw [List.all_append, g.2, h.2, Bool.and_self]⟩

theorem SpellsItems.pad (h : SpellsItems short s vs) (gap : Gap) :
    SpellsItems short (gap.1 ++ s) vs := by
  cases h with
  | last before after h =>
    rw [← List.append_assoc]
    exact .last (gap.append before) after h
  | next before after h ht =>
    rw [← List.append_assoc]
    exact .next (gap.append before) after h ht

theorem SpellsMembers.pad (h : SpellsMembers short s es) (gap : Gap) :
    SpellsMembers short (gap.1 ++ s) es := by
  cases h with
  | last before key middle ahead after h =>
    rw [← List.append_assoc]
    exact .last (gap.append before) key middle ahead after h
  | next before key middle ahead after h ht =>
    rw [← List.append_assoc]
    exact .next (gap.append before) key middle ahead after h ht

/-- What is read with this fuel is spelled by the text in front of the rest. -/
structure Sound (fuel : Nat) : Prop where
  ofValue (s : List Char) (v : Value) (rest : List Char) (h : value fuel s = .ok (v, rest)) :
    ∃ t, s = t ++ rest ∧ Spells true t v
  ofItems (s : List Char) (vs : List Value) (rest : List Char)
    (h : elements fuel s = .ok (vs, rest)) : ∃ t, s = t ++ ']' :: rest ∧ SpellsItems true t vs
  ofMembers (s : List Char) (es : List (Value × Value)) (rest : List Char)
    (h : members fuel s = .ok (es, rest)) : ∃ t, s = t ++ '\x7d' :: rest ∧ SpellsMembers true t es

theorem exists_of_skipSpace {P : List Char → Prop} {close : Char}
    (hpad : ∀ (gap : Gap) t, P t → P (gap.1 ++ t))
    (h : ∃ t, skipSpace s = t ++ close :: rest ∧ P t) : ∃ t, s = t ++ close :: rest ∧ P t := by
  obtain ⟨gap, hs⟩ := exists_gap s
  obtain ⟨t, ht, hp⟩ := h
  exact ⟨gap.1 ++ t, by rw [hs, ht, List.append_assoc], hpad gap t hp⟩

section Step
variable {fuel : Nat}

theorem Sound.value_succ (h : Sound fuel) (hv : value (fuel + 1) s = .ok (v, rest)) :
    ∃ t, s = t ++ rest ∧ Spells true t v := by
  unfold value at hv
  dsimp only at hv
  split at hv
  · obtain ⟨spellings, rfl, rfl⟩ := string_eq_ok hv
    exact ⟨quotedText spellings, by simp [quotedText], .string spellings⟩
  · next s =>
    obtain ⟨gap, hgap⟩ := exists_gap s
    split at hv
    · next hskip =>
      cases hv
      rw [hgap, hskip]
      exact ⟨'\x7b' :: (gap.1 ++ ['\x7d']), by simp, .emptyMap gap⟩
    · obtain ⟨⟨es, last⟩, hes, he⟩ := (bind_eq_ok_iff _ _ _).mp hv
      cases he
      obtain ⟨t, rfl, ht⟩ :=
        exists_of_skipSpace (fun gap t ht => ht.pad gap) (h.ofMembers _ _ _ hes)
      exact ⟨'\x7b' :: (t ++ ['\x7d']), by simp, .map ht⟩
  · next s =>
    obtain ⟨gap, hgap⟩ := exists_gap s
    split at hv
    · next hskip =>
      cases hv
      rw [hgap, hskip]
      exact ⟨'[' :: (gap.1 ++ [']']), by simp, .emptyList gap⟩
    · obtain ⟨⟨vs, last⟩, hvs, he⟩ := (bind_eq_ok_iff _ _ _).mp hv
      cases he
      obtain ⟨t, rfl, ht⟩ := exists_of_skipSpace (fun gap t ht => ht.pad gap) (h.ofItems _ _ _ hvs)
      exact ⟨'[' :: (t ++ [']']), by simp, .list ht⟩
  · exact atom_eq_ok hv

theorem Sound.elements_succ (h : Sound fuel) (hv : elements (fuel + 1) s = .ok (vs, rest)) :
    ∃ t, s = t ++ ']' :: rest ∧ SpellsItems true t vs := by
  rw [elements] at hv
  obtain ⟨⟨v, after⟩, hhead, hmore⟩ := (bind_eq_ok_iff _ _ _).mp hv
  obtain ⟨t, rfl, ht⟩ := h.ofValue _ _ _ hhead
  obtain ⟨gap, hgap⟩ := exists_gap after
  dsimp only at hmore
  split at hmore
  · next hskip =>
    cases hmore
    rw [hgap, hskip]
    exact ⟨t ++ gap.1, by simp, .last ⟨[], rfl⟩ gap ht⟩
  · next hskip =>
    obtain ⟨⟨vs, last⟩, hvs, he⟩ := (bind_eq_ok_iff _ _ _).mp hmore
    cases he
    obtain ⟨u, hu, hitems⟩ := exists_of_skipSpace (fun gap t ht => ht.pad gap) (h.ofItems _ _ _ hvs)
    rw [hgap, hskip, hu]
    exact ⟨t ++ (gap.1 ++ ',' :: u), by simp, .next ⟨[], rfl⟩ gap ht hitems⟩
  · cases hmore

theorem Sound.members_succ (h : Sound fuel) (hv : members (fuel + 1) s = .ok (es, rest)) :
    ∃ t, s = t ++ '\x7d' :: rest ∧ SpellsMembers true t es := by
  unfold members at hv
  dsimp only at hv
  split at hv
  · obtain ⟨⟨key, after⟩, hkey, hcolon⟩ := (bind_eq_ok_iff _ _ _).mp hv
    obtain ⟨spellings, rfl, rfl⟩ := string_eq_ok hkey
    obtain ⟨middle, hmiddle⟩ := exists_gap after
    dsimp only at hcolon
    split at hcolon
    · next s hskip =>
      obtain ⟨⟨v, after⟩, hhead, hmore⟩ := (bind_eq_ok_iff _ _ _).mp hcolon
      obtain ⟨ahead, hahead⟩ := exists_gap s
      obtain ⟨t, ht, hspells⟩ := h.ofValue _ _ _ hhead
      obtain ⟨gap, hgap⟩ := exists_gap after
      rw [hmiddle, hskip, hahead, ht]
      dsimp only at hmore
      split at hmore
      · next hclose =>
        cases hmore
        rw [hgap, hclose]
        exact ⟨_, by simp [quotedText], .last ⟨[], rfl⟩ spellings middle ahead gap hspells⟩
      · next hnext =>
        obtain ⟨⟨es, last⟩, hes, he⟩ := (bind_eq_ok_iff _ _ _).mp hmore
        cases he
        obtain ⟨u, hu, hmembers⟩ :=
          exists_of_skipSpace (fun gap t ht => ht.pad gap) (h.ofMembers _ _ _ hes)
        rw [hgap, hnext, hu]
        exact ⟨_, by simp [quotedText], .next ⟨[], rfl⟩ spellings middle ahead gap hspells hmembers⟩
      · cases hmore
    · cases hcolon
  · cases hv

end Step

/-- Whatever the reader takes for a value is a text of the grammar. -/
theorem sound (fuel : Nat) : Sound fuel := by
  induction fuel with
  | zero => exact ⟨nofun, nofun, nofun⟩
  | succ fuel ih =>
    exact ⟨fun _ _ _ => ih.value_succ, fun _ _ _ => ih.elements_succ, fun _ _ _ => ih.members_succ⟩

end Soundness

section LongNumbers

/-- A whole number that is too long to be read stands somewhere in a text. -/
def HasLongNumber (s : List Char) : Prop :=
  ∃ (before : List Char) (n : Numeral) (after : List Char),
    s = before ++ (n.text ++ after) ∧ n.isShort = false

theorem HasLongNumber.of_suffix (h : HasLongNumber t) (ht : t <:+ s) : HasLongNumber s := by
  obtain ⟨u, rfl⟩ := ht
  obtain ⟨before, n, after, rfl, hn⟩ := h
  exact ⟨u ++ before, n, after, by rw [List.append_assoc], hn⟩

theorem suffix_of_skipSpace {c : Char} (h : skipSpace s = c :: rest) : skipSpace rest <:+ s :=
  (List.dropWhile_suffix isSpace).trans ((List.suffix_cons c rest).trans
    (h ▸ List.dropWhile_suffix isSpace))

/-- The reader stops at a long number only where there is one. -/
def Justified {α : Type} (s : List Char) (x : Except Fault α) : Prop :=
  ∀ f, x = .error f → f.issue = .tooManyDigits → HasLongNumber s

section Justified
variable {α β : Type} {x : Except Fault α}

theorem Justified.ok (a : α) : Justified s (.ok a) := nofun

theorem Justified.fail {issue : Issue} (h : issue ≠ .tooManyDigits) (t : List Char) :
    Justified s (fail issue t : Except Fault α) := by
  rintro f ⟨⟩ hf
  exact absurd hf h

theorem Justified.bind {f : α → Except Fault β} (h : Justified s x)
    (hf : ∀ a, x = .ok a → Justified s (f a)) : Justified s (x >>= f) := by
  intro e he
  rcases (bind_eq_error_iff _ _ _).mp he with he | ⟨a, ha, he⟩
  · exact h e he
  · exact hf a ha e he

theorem Justified.of_suffix (h : Justified t x) (ht : t <:+ s) : Justified s x :=
  fun f hf hi => (h f hf hi).of_suffix ht

end Justified

theorem stringCodes_issue {start : List Char} {f : Fault} (h : stringCodes start s = .error f) :
    f.issue ≠ .tooManyDigits := by
  fun_induction stringCodes start s with
  | case2 => cases h
  | case4 _ _ _ _ _ _ _ _ ih | case7 _ _ _ _ _ _ ih | case10 _ _ _ _ _ _ _ _ ih =>
    rcases (bind_eq_error_iff _ _ _).mp h with h | ⟨_, _, h⟩
    · exact ih h
    · cases h
  | _ =>
    cases h
    simp

theorem justified_string (s t : List Char) : Justified t (string s) := by
  refine Justified.bind (fun f hf hi => absurd hi (stringCodes_issue hf)) fun r _ => ?_
  exact Justified.ok _

theorem justified_atom (s : List Char) : Justified s (atom s) := by
  rcases atom_cases s with ⟨w, v, rest, -, -, ha⟩ | ⟨n, rest, hs, ha⟩ | ha <;> rw [ha]
  · exact Justified.ok _
  · split
    · exact Justified.ok _
    · next hn =>
      intro f _ _
      exact ⟨[], n, rest, hs, Bool.eq_false_iff.mpr hn⟩
  · exact Justified.fail (by decide) s

/-- With this fuel the reader stops at a long number only where there is one. -/
structure Justifies (fuel : Nat) : Prop where
  ofValue (s : List Char) : Justified s (value fuel s)
  ofItems (s : List Char) : Justified s (elements fuel s)
  ofMembers (s : List Char) : Justified s (members fuel s)

section Step
variable {fuel : Nat}

theorem suffix_of_value (h : value fuel s = .ok (v, rest)) : rest <:+ s := by
  obtain ⟨t, rfl, -⟩ := (sound fuel).ofValue _ _ _ h
  exact List.suffix_append t rest

theorem suffix_of_string (h : string s = .ok (v, rest)) : rest <:+ '"' :: s := by
  obtain ⟨spellings, rfl, -⟩ := string_eq_ok h
  exact ⟨quotedText spellings, by simp [quotedText]⟩

theorem Justifies.value_succ (h : Justifies fuel) (s : List Char) :
    Justified s (value (fuel + 1) s) := by
  have hinner (c : Char) (t : List Char) : skipSpace t <:+ c :: t :=
    (List.dropWhile_suffix isSpace).trans (List.suffix_cons c t)
  unfold value
  dsimp only
  split
  · exact justified_string _ _
  · split
    · exact Justified.ok _
    · exact Justified.bind ((h.ofMembers _).of_suffix (hinner _ _)) fun r _ => Justified.ok _
  · split
    · exact Justified.ok _
    · exact Justified.bind ((h.ofItems _).of_suffix (hinner _ _)) fun r _ => Justified.ok _
  · exact justified_atom _

theorem Justifies.elements_succ (h : Justifies fuel) (s : List Char) :
    Justified s (elements (fuel + 1) s) := by
  rw [elements]
  refine (h.ofValue s).bind ?_
  rintro ⟨v, after⟩ hv
  dsimp only
  split
  · exact Justified.ok _
  · next hnext =>
    have hmore := (suffix_of_skipSpace hnext).trans (suffix_of_value hv)
    exact Justified.bind ((h.ofItems _).of_suffix hmore) fun r _ => Justified.ok _
  · exact Justified.fail (by decide) _

theorem Justifies.members_succ (h : Justifies fuel) (s : List Char) :
    Justified s (members (fuel + 1) s) := by
  unfold members
  dsimp only
  split
  · refine (justified_string _ _).bind ?_
    rintro ⟨key, after⟩ hkey
    dsimp only
    split
    · next hcolon =>
      have hvalue := (suffix_of_skipSpace hcolon).trans (suffix_of_string hkey)
      refine ((h.ofValue _).of_suffix hvalue).bind ?_
      rintro ⟨v, after⟩ hv
      dsimp only
      split
      · exact Justified.ok _
      · next hnext =>
        have hmore := (suffix_of_skipSpace hnext).trans ((suffix_of_value hv).trans hvalue)
        exact Justified.bind ((h.ofMembers _).of_suffix hmore) fun r _ => Justified.ok _
      · exact Justified.fail (by decide) _
    · exact Justified.fail (by decide) _
  · exact Justified.fail (by decide) _

end Step

theorem justifies (fuel : Nat) : Justifies fuel := by
  have hzero {α : Type} (s : List Char) : Justified s (fail .value s : Except Fault α) :=
    Justified.fail (by decide) s
  induction fuel with
  | zero => exact ⟨hzero, hzero, hzero⟩
  | succ fuel ih => exact ⟨ih.value_succ, ih.elements_succ, ih.members_succ⟩

end LongNumbers

section Texts

theorem Denotes.gives (h : Denotes short s v) : Gives short v (parse s) := by
  obtain ⟨before, after, t, rfl, ht⟩ := h
  have hmark : ((before.1 ++ (t ++ after.1)).head? == some '\uFEFF') = false := by
    obtain ⟨g, hg⟩ := before
    cases g with
    | nil =>
      obtain ⟨c, u, rfl, ho⟩ := ht.opens
      simpa using ho.2.2
    | cons c g =>
      rw [List.all_cons, Bool.and_eq_true] at hg
      have hc : c ≠ '\uFEFF' := by
        rintro rfl
        exact absurd hg.1 (by decide)
      simpa using hc
  have hend : skipSpace after.1 = [] := by
    rw [← List.append_nil after.1, skipSpace_gap]
    rfl
  rw [parse, hmark, if_neg (by simp), skipSpace_gap, ht.skipSpace_append]
  have hlength : t.length ≤ (before.1 ++ (t ++ after.1)).length := by
    simp only [List.length_append]
    omega
  refine (ht.gives after.1 _ (endsNumber_only after) hlength).bind ?_
  simp only [hend]
  exact rfl

theorem parse_eq_ok_iff : parse s = .ok v ↔ Denotes true s v := by
  constructor
  · intro h
    unfold parse at h
    split at h
    · cases h
    · obtain ⟨⟨v, after⟩, hv, hrest⟩ := (bind_eq_ok_iff _ _ _).mp h
      obtain ⟨t, ht, hspells⟩ := (sound _).ofValue _ _ _ hv
      obtain ⟨before, hbefore⟩ := exists_gap s
      obtain ⟨gap, hgap⟩ := exists_gap after
      dsimp only at hrest
      split at hrest
      · next hnil =>
        cases hrest
        rw [hnil, List.append_nil] at hgap
        exact ⟨before, gap, t, by rw [hbefore, ht, hgap], hspells⟩
      · cases hrest
  · exact fun h => h.gives.eq_ok

mutual

theorem Spells.mono {s : List Char} {v : Value} : Spells true s v → Spells short s v
  | .word h => .word h
  | .number n h => .number n fun _ => h rfl
  | .string s => .string s
  | .emptyList gap => .emptyList gap
  | .list h => .list h.mono
  | .emptyMap gap => .emptyMap gap
  | .map h => .map h.mono

theorem SpellsItems.mono {s : List Char} {vs : List Value} :
    SpellsItems true s vs → SpellsItems short s vs
  | .last before after h => .last before after h.mono
  | .next before after h ht => .next before after h.mono ht.mono

theorem SpellsMembers.mono {s : List Char} {es : List (Value × Value)} :
    SpellsMembers true s es → SpellsMembers short s es
  | .last before key middle ahead after h => .last before key middle ahead after h.mono
  | .next before key middle ahead after h ht => .next before key middle ahead after h.mono ht.mono

end

/-- Reading stops at a whole number that is too long. -/
def StopsAtLongNumber (s : List Char) : Prop :=
  ∃ f, parse s = .error f ∧ f.issue = .tooManyDigits

theorem StopsAtLongNumber.hasLongNumber (h : StopsAtLongNumber s) : HasLongNumber s := by
  obtain ⟨f, hf, hi⟩ := h
  have hparse : Justified s (parse s) := by
    unfold parse
    split
    · exact Justified.fail (by decide) s
    · refine Justified.bind (((justifies _).ofValue _).of_suffix (List.dropWhile_suffix isSpace)) ?_
      intro r _
      dsimp only
      split
      · exact Justified.ok _
      · exact Justified.fail (by decide) _
  exact hparse f hf hi

/-- Where no long number stops the reader, it accepts just the texts of the grammar. -/
theorem exists_parse_iff (h : ¬ StopsAtLongNumber s) :
    (∃ v, parse s = .ok v) ↔ ∃ v, Denotes false s v := by
  constructor
  · rintro ⟨v, hv⟩
    obtain ⟨before, after, t, hs, ht⟩ := parse_eq_ok_iff.mp hv
    exact ⟨v, before, after, t, hs, ht.mono⟩
  · rintro ⟨v, hv⟩
    have hgives := hv.gives
    cases hp : parse s with
    | ok w => exact ⟨w, rfl⟩
    | error f =>
      rw [hp] at hgives
      exact absurd ⟨f, hp, hgives.2⟩ h

end Texts

section Trees

mutual

theorem Tree.spells : ∀ t : Tree, t.obeys shortNumbers = true → Spells true t.text t.toValue
  | .null, _ => .word (by simp [words, Tree.toValue, Tree.spell])
  | .bool true, _ => .word (by simp [words, Tree.toValue, Tree.spell])
  | .bool false, _ => .word (by simp [words, Tree.toValue, Tree.spell])
  | .number n, h => .number n fun _ => h
  | .string s, _ => .string s
  | .emptyList gap, _ => .emptyList gap
  | .list items, h => .list (Items.spells items h)
  | .emptyMap gap, _ => .emptyMap gap
  | .map members, h => .map (Members.spells members h)

theorem Items.spells : ∀ items : Items, items.obeys shortNumbers = true →
    SpellsItems true (items.spell id) items.toValues
  | .last before v after, h => by
    simp only [Items.obeys, Bool.and_eq_true] at h
    exact .last before after (Tree.spells v h.1.2)
  | .next before v after rest, h => by
    simp only [Items.obeys, Bool.and_eq_true] at h
    exact .next before after (Tree.spells v h.1.1.2) (Items.spells rest h.2)

theorem Members.spells : ∀ members : Members, members.obeys shortNumbers = true →
    SpellsMembers true (members.spell id) members.toEntries
  | .last before key middle ahead v after, h => by
    simp only [Members.obeys, Bool.and_eq_true] at h
    exact .last before key middle ahead after (Tree.spells v h.1.2)
  | .next before key middle ahead v after rest, h => by
    simp only [Members.obeys, Bool.and_eq_true] at h
    exact .next before key middle ahead after (Tree.spells v h.1.1.2) (Members.spells rest h.2)

end

/-- The text of a document is read as the value of its tree. -/
theorem parse_document (d : Document) (h : d.root.obeys shortNumbers = true) :
    parse d.text = .ok d.root.toValue :=
  parse_eq_ok_iff.mpr ⟨d.before, d.after, d.root.text, rfl, d.root.spells h⟩

end Trees

end RouteBook.Json
