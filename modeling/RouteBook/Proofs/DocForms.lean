import Mathlib.Data.List.Basic
import RouteBook.DocComment.Entry

/-! The forms of the lines of a documentation comment. Main statements: each reader takes a text
exactly when the text has the form, and gives what stands in its places. -/
namespace RouteBook

namespace Text
variable {s t : List Char} {c : Char} {p : Char → Bool}

theorem dropWhile_of_head (h : ∀ c ∈ s.head?, p c = false) : s.dropWhile p = s := by
  cases s with
  | nil => rfl
  | cons c s => simp [h c (by simp)]

structure Run (p : Char → Bool) (s t : List Char) : Prop where
  all : ∀ c ∈ s, p c = true
  stop : ∀ c ∈ t.head?, p c = false

theorem Run.takeWhile (h : Run p s t) : (s ++ t).takeWhile p = s := by
  have hstop : t.takeWhile p = [] := by
    cases t with
    | nil => rfl
    | cons c t => simp [h.stop c (by simp)]
  rw [List.takeWhile_append_of_pos h.all, hstop, List.append_nil]

theorem Run.dropWhile (h : Run p s t) : (s ++ t).dropWhile p = t := by
  rw [List.dropWhile_append_of_pos h.all, dropWhile_of_head h.stop]

theorem exists_run (p : Char → Bool) (s : List Char) :
    ∃ run rest, s = run ++ rest ∧ Run p run rest := by
  refine ⟨s.takeWhile p, s.dropWhile p, List.takeWhile_append_dropWhile.symm, ?_, ?_⟩
  · exact List.all_eq_true.mp List.all_takeWhile
  · intro c hc
    have hstop := List.head?_dropWhile_not p s
    rwa [Option.mem_def.mp hc] at hstop

theorem not_inRanges {rs ss : List (Nat × Nat)} {n : Nat} (h : inRanges rs n = true)
    (hd : (rs.all fun r => ss.all fun u => decide (r.2 < u.1 ∨ u.2 < r.1)) = true) :
    inRanges ss n = false := by
  obtain ⟨r, hr, hlow, hhigh⟩ := inRanges_iff.mp h
  rw [inRanges, List.any_eq_false]
  intro u hu
  have hapart := List.all_eq_true.mp (List.all_eq_true.mp hd r hr) u hu
  simp only [decide_eq_true_eq] at hapart
  simp only [Bool.and_eq_true, decide_eq_true_eq, not_and]
  omega

theorem not_blank_of_isDigit (h : isDigit c = true) : isBlank c = false :=
  not_inRanges h (by decide)

theorem not_word_of_isBlank (h : isBlank c = true) : isWord c = false :=
  not_inRanges h (by decide +kernel)

end Text

namespace DocComment

open Text (isBlank isDigit isWord trim Run exists_run)

section Tag
variable {s tail rest : List Char} {name : String}

/-- A tag line: an at sign, a word and a rest, which counts without its outer blanks. -/
def TagForm (s : List Char) (name : String) (rest : List Char) : Prop :=
  ∃ tail, s = '@' :: (name.toList ++ tail) ∧ name ≠ "" ∧ Run isWord name.toList tail ∧
    rest = trim tail

theorem tagged?_of_run {word : List Char} (h : Run isWord word tail) :
    tagged? ('@' :: (word ++ tail)) =
      if word = [] then none else some (String.ofList word, trim tail) := by
  rw [tagged?, h.takeWhile]
  cases word with
  | nil => rfl
  | cons c word => simp

theorem tagged?_eq_some_iff : tagged? s = some (name, rest) ↔ TagForm s name rest := by
  constructor
  · intro h
    obtain ⟨s, rfl⟩ : ∃ s', s = '@' :: s' := by
      unfold tagged? at h
      split at h
      · exact ⟨_, rfl⟩
      · cases h
    obtain ⟨word, tail, rfl, hrun⟩ := exists_run isWord s
    rw [tagged?_of_run hrun] at h
    split at h
    · cases h
    · next hne =>
      obtain ⟨rfl, rfl⟩ := Prod.mk.inj (Option.some.inj h)
      exact ⟨tail, by rw [String.toList_ofList], by simpa using hne,
        by rwa [String.toList_ofList], rfl⟩
  · intro ⟨tail, hs, hne, hrun, hrest⟩
    rw [hs, tagged?_of_run hrun, if_neg (by simpa using hne), String.ofList_toList, hrest]

end Tag

section Route
variable {s : List Char} {path : String}

/-- A route line: a word, blanks, and a path without blanks, which may be followed by more. -/
def RouteForm (s : List Char) (path : String) : Prop :=
  ∃ word blanks more tail, s = word ++ (blanks ++ ('/' :: (more ++ tail))) ∧
    path.toList = '/' :: more ∧ word ≠ [] ∧ (∀ c ∈ word, isWord c = true) ∧
    blanks ≠ [] ∧ (∀ c ∈ blanks, isBlank c = true) ∧ Run (!isBlank ·) more tail

theorem routePath?_of_form (h : RouteForm s path) : routePath? s = some path := by
  obtain ⟨word, blanks, more, tail, rfl, hpath, hword, hwords, hblank, hblanks, hmore⟩ := h
  obtain ⟨w, ws, rfl⟩ := List.exists_cons_of_ne_nil hword
  obtain ⟨b, bs, rfl⟩ := List.exists_cons_of_ne_nil hblank
  have hb : isBlank b = true := hblanks b (by simp)
  have hrun : Run isWord (w :: ws) ((b :: bs) ++ '/' :: (more ++ tail)) :=
    ⟨hwords, by simpa using Text.not_word_of_isBlank hb⟩
  have hskip : Run isBlank (b :: bs) ('/' :: (more ++ tail)) := ⟨hblanks, by simp; decide⟩
  rw [routePath?, hrun.takeWhile, List.drop_left]
  change (if isBlank b = true then _ else none) = _
  rw [if_pos hb]
  simp only [hskip.dropWhile, hmore.takeWhile, ← hpath, String.ofList_toList]

theorem form_of_routePath? (h : routePath? s = some path) : RouteForm s path := by
  obtain ⟨word, after, rfl, hword⟩ := exists_run isWord s
  obtain ⟨blanks, rest, rfl, hblanks⟩ := exists_run isBlank after
  rw [routePath?, hword.takeWhile, List.drop_left] at h
  simp only [hblanks.dropWhile] at h
  split at h
  · next w ws b after hafter =>
    split at h
    · next hb =>
      split at h
      · next path' =>
        obtain ⟨more, tail, rfl, hmore⟩ := exists_run (!isBlank ·) path'
        rw [hmore.takeWhile] at h
        refine ⟨w :: ws, blanks, more, tail, rfl, ?_, by simp, hword.all, ?_, hblanks.all, hmore⟩
        · rw [← Option.some.inj h, String.toList_ofList]
        · intro hnil
          obtain rfl : '/' = b := by
            rw [hnil] at hafter
            exact (List.cons.inj hafter).1
          exact absurd hb (by decide)
      · cases h
    · cases h
  · cases h

end Route

section Trailing
variable {s : List Char} {text : String}

/-- What follows a name or a code: nothing, or blanks, perhaps a dash, and a text, which counts
without its outer blanks. -/
inductive Trailing : List Char → String → Prop where
  | none : Trailing [] ""
  | dashed {blanks more : List Char} : blanks ≠ [] → (∀ c ∈ blanks, isBlank c = true) →
      Trailing (blanks ++ '-' :: more) (String.ofList (trim more))
  | plain {blanks more : List Char} : blanks ≠ [] → Run isBlank blanks more →
      more.head? ≠ some '-' → Trailing (blanks ++ more) (String.ofList (trim more))

theorem trailing?_of_form (h : Trailing s text) : trailing? s = some text := by
  cases h with
  | none => rfl
  | @dashed blanks more hne hblanks =>
    obtain ⟨b, bs, rfl⟩ := List.exists_cons_of_ne_nil hne
    obtain ⟨hb, hbs⟩ := List.forall_mem_cons.mp hblanks
    have hrun : Run isBlank bs ('-' :: more) := ⟨hbs, by simp; decide⟩
    rw [List.cons_append, trailing?, if_pos hb, hrun.dropWhile]
    rfl
  | @plain blanks more hne hrun hdash =>
    obtain ⟨b, bs, rfl⟩ := List.exists_cons_of_ne_nil hne
    obtain ⟨hb, hbs⟩ := List.forall_mem_cons.mp hrun.all
    rw [List.cons_append, trailing?, if_pos hb, Run.dropWhile ⟨hbs, hrun.stop⟩]
    split
    · exact absurd rfl hdash
    · rfl

theorem form_of_trailing? (h : trailing? s = some text) : Trailing s text := by
  cases s with
  | nil =>
    obtain rfl := Option.some.inj h
    exact .none
  | cons b s =>
    rw [trailing?] at h
    split at h
    · next hb =>
      obtain ⟨bs, more, rfl, hrun⟩ := exists_run isBlank s
      have hblanks : ∀ c ∈ b :: bs, isBlank c = true := List.forall_mem_cons.mpr ⟨hb, hrun.all⟩
      rw [hrun.dropWhile] at h
      split at h
      · obtain rfl := Option.some.inj h
        exact .dashed (List.cons_ne_nil b bs) hblanks
      · next hdash =>
        obtain rfl := Option.some.inj h
        refine .plain (List.cons_ne_nil b bs) ⟨hblanks, hrun.stop⟩ fun hhead => ?_
        obtain ⟨more, rfl⟩ := List.head?_eq_some_iff.mp hhead
        exact hdash more rfl
    · cases h

/-- The text of a form begins with a blank, if it is not empty. -/
theorem Trailing.head (h : Trailing s text) : ∀ c ∈ s.head?, isBlank c = true := by
  cases h with
  | none => simp
  | dashed hne hblanks =>
    rw [List.head?_append_of_ne_nil _ hne]
    exact fun c hc => hblanks c (List.mem_of_mem_head? hc)
  | plain hne hrun hdash =>
    rw [List.head?_append_of_ne_nil _ hne]
    exact fun c hc => hrun.all c (List.mem_of_mem_head? hc)

end Trailing

section Response
variable {s : List Char} {r : String × String}

/-- A response line: a code of three digits and what follows it. -/
def ResponseForm (s : List Char) (r : String × String) : Prop :=
  ∃ tail, s = r.1.toList ++ tail ∧ r.1.length = 3 ∧ (∀ c ∈ r.1.toList, isDigit c = true) ∧
    Trailing tail r.2

theorem response?_eq_some_iff : response? s = some r ↔ ResponseForm s r := by
  constructor
  · intro h
    unfold response? at h
    split at h
    · next a b c tail =>
      split at h
      · next hdigits =>
        obtain ⟨text, htext, rfl⟩ := Option.map_eq_some_iff.mp h
        refine ⟨tail, by simp, by simp, ?_, form_of_trailing? htext⟩
        simpa [and_assoc] using hdigits
      · cases h
    · cases h
  · intro ⟨tail, hs, hlen, hdigits, htail⟩
    rw [← String.length_toList] at hlen
    obtain ⟨a, b, c, habc⟩ := List.length_eq_three.mp hlen
    have hcode : String.ofList [a, b, c] = r.1 := by rw [← habc, String.ofList_toList]
    rw [habc] at hdigits
    rw [hs, habc]
    simp only [List.forall_mem_cons] at hdigits
    simp only [List.cons_append, List.nil_append, response?, hdigits, Bool.and_self, if_true,
      trailing?_of_form htail, Option.map_some, hcode]

end Response

section Param
variable {p : DocParam} {s tail : List Char}

/-- A parameter's name with its default; one that is not required stands in brackets. -/
def nameText (p : DocParam) : List Char :=
  if p.required then p.name.toList
  else '[' :: (p.name.toList ++ (((p.default.map fun d => '=' :: d.toList).getD []) ++ [']']))

/-- What makes the name of a parameter one that can stand in a line. -/
structure Named (p : DocParam) : Prop where
  name_ne : p.name ≠ ""
  name : ∀ c ∈ p.name.toList, isBlank c = false
  required : p.required = true → (∀ c ∈ p.name.toList, c ≠ '[' ∧ c ≠ ']') ∧ p.default = none
  optional : p.required = false → (∀ c ∈ p.name.toList, c ≠ ']' ∧ c ≠ '=') ∧
    ∀ d ∈ p.default, ∀ c ∈ d.toList, c ≠ ']'

/-- A parameter line: a type in braces, which counts without its outer blanks, then blanks, the name
and what follows it. -/
def ParamForm (s : List Char) (p : DocParam) : Prop :=
  ∃ type blanks tail, s = '\x7b' :: (type ++ '\x7d' :: (blanks ++ (nameText p ++ tail))) ∧
    type ≠ [] ∧ (∀ c ∈ type, c ≠ '\x7d') ∧ p.type = String.ofList (trim type) ∧
    blanks ≠ [] ∧ (∀ c ∈ blanks, isBlank c = true) ∧ Named p ∧ Trailing tail p.description

theorem paramName?_required {name : List Char} (hne : name ≠ [])
    (h : Run (fun c => !(c == '[' || c == ']' || isBlank c)) name tail) :
    paramName? (name ++ tail) = some (String.ofList name, true, none, tail) := by
  obtain ⟨c, cs, rfl⟩ := List.exists_cons_of_ne_nil hne
  have hopen : c ≠ '[' := by
    rintro rfl
    simpa using h.all '[' (by simp)
  unfold paramName?
  split
  · next hs => exact absurd (List.cons.inj hs).1 hopen
  · simp only [h.takeWhile, List.drop_left]

theorem paramName?_optional {name : List Char} (hne : name ≠ [])
    (h : Run (fun c => !(c == ']' || c == '=' || isBlank c)) name (']' :: tail)) :
    paramName? ('[' :: (name ++ ']' :: tail)) = some (String.ofList name, false, none, tail) := by
  obtain ⟨c, cs, rfl⟩ := List.exists_cons_of_ne_nil hne
  rw [paramName?, h.takeWhile, List.drop_left]
  rfl

theorem paramName?_default {name value : List Char} (hne : name ≠ [])
    (h : Run (fun c => !(c == ']' || c == '=' || isBlank c)) name ('=' :: (value ++ ']' :: tail)))
    (hvalue : Run (· != ']') value (']' :: tail)) :
    paramName? ('[' :: (name ++ '=' :: (value ++ ']' :: tail))) =
      some (String.ofList name, false, some (String.ofList value), tail) := by
  obtain ⟨c, cs, rfl⟩ := List.exists_cons_of_ne_nil hne
  rw [paramName?, h.takeWhile, List.drop_left]
  simp only [hvalue.takeWhile, List.drop_left]

theorem paramName?_nameText (h : Named p) (ht : ∀ c ∈ tail.head?, isBlank c = true) :
    paramName? (nameText p ++ tail) = some (p.name, p.required, p.default, tail) := by
  have hne : p.name.toList ≠ [] := by simpa using h.name_ne
  cases hreq : p.required with
  | true =>
    obtain ⟨hbrackets, hdefault⟩ := h.required hreq
    rw [nameText, hreq, if_pos rfl, hdefault, paramName?_required hne, String.ofList_toList]
    exact ⟨fun c hc => by simp [hbrackets c hc, h.name c hc], fun c hc => by simp [ht c hc]⟩
  | false =>
    obtain ⟨hname, hdefault⟩ := h.optional hreq
    have hrun (u : List Char) (hu : ∀ c ∈ u.head?, c = ']' ∨ c = '=') :
        Run (fun c => !(c == ']' || c == '=' || isBlank c)) p.name.toList u :=
      ⟨fun c hc => by simp [hname c hc, h.name c hc],
        fun c hc => by obtain rfl | rfl := hu c hc <;> simp⟩
    rw [nameText, hreq, if_neg (by simp)]
    cases hd : p.default with
    | none =>
      have hread := paramName?_optional hne (hrun (']' :: tail) (by simp))
      simpa using hread
    | some value =>
      have hclose : Run (· != ']') value.toList (']' :: tail) :=
        ⟨fun c hc => by simp [hdefault value hd c hc], by simp⟩
      have hread := paramName?_default hne (hrun ('=' :: (value.toList ++ ']' :: tail)) (by simp))
        hclose
      simpa using hread

theorem named_of_paramName? {name : String} {required : Bool} {default : Option String}
    (h : paramName? s = some (name, required, default, tail)) (type description : String) :
    s = nameText { name, type, required, description, default } ++ tail ∧
      Named { name, type, required, description, default } := by
  unfold paramName? at h
  split at h
  · next s =>
    obtain ⟨word, after, rfl, hrun⟩ :=
      exists_run (fun c => !(c == ']' || c == '=' || isBlank c)) s
    have hword : ∀ c ∈ word, (c ≠ ']' ∧ c ≠ '=') ∧ isBlank c = false := by
      simpa using hrun.all
    simp only [hrun.takeWhile, List.drop_left] at h
    split at h
    · simp only [Option.some.injEq, Prod.mk.injEq] at h
      obtain ⟨rfl, rfl, rfl, rfl⟩ := h
      refine ⟨by simp [nameText], by simp, ?_, by simp, fun _ => ⟨?_, by simp⟩⟩
      · rw [String.toList_ofList]
        exact fun c hc => (hword c hc).2
      · rw [String.toList_ofList]
        exact fun c hc => (hword c hc).1
    · next t =>
      obtain ⟨value, close, rfl, hvalue⟩ := exists_run (· != ']') t
      simp only [hvalue.takeWhile, List.drop_left] at h
      split at h
      · simp only [Option.some.injEq, Prod.mk.injEq] at h
        obtain ⟨rfl, rfl, rfl, rfl⟩ := h
        refine ⟨by simp [nameText], by simp, ?_, by simp, fun _ => ⟨?_, ?_⟩⟩
        · rw [String.toList_ofList]
          exact fun c hc => (hword c hc).2
        · rw [String.toList_ofList]
          exact fun c hc => (hword c hc).1
        · simpa using hvalue.all
      · cases h
    · cases h
  · obtain ⟨word, after, rfl, hrun⟩ :=
      exists_run (fun c => !(c == '[' || c == ']' || isBlank c)) s
    have hword : ∀ c ∈ word, (c ≠ '[' ∧ c ≠ ']') ∧ isBlank c = false := by
      simpa using hrun.all
    simp only [hrun.takeWhile, List.drop_left] at h
    split at h
    · cases h
    · next hne =>
      simp only [Option.some.injEq, Prod.mk.injEq] at h
      obtain ⟨rfl, rfl, rfl, rfl⟩ := h
      refine ⟨by simp [nameText], by simpa using hne, ?_, fun _ => ⟨?_, rfl⟩, by simp⟩
      · rw [String.toList_ofList]
        exact fun c hc => (hword c hc).2
      · rw [String.toList_ofList]
        exact fun c hc => (hword c hc).1

theorem nameText_head (h : Named p) : ∀ c ∈ (nameText p ++ tail).head?, isBlank c = false := by
  unfold nameText
  split
  · rw [List.head?_append_of_ne_nil _ (by simpa using h.name_ne)]
    exact fun c hc => h.name c (List.mem_of_mem_head? hc)
  · intro c hc
    obtain rfl : '[' = c := by simpa using hc
    decide

theorem param?_of_form (h : ParamForm s p) : param? s = some p := by
  obtain ⟨type, blanks, tail, rfl, hne, hclosed, htype, hblank, hblanks, hnamed, htail⟩ := h
  obtain ⟨x, xs, rfl⟩ := List.exists_cons_of_ne_nil hne
  obtain ⟨b, bs, rfl⟩ := List.exists_cons_of_ne_nil hblank
  obtain ⟨hb, hbs⟩ := List.forall_mem_cons.mp hblanks
  have hrun : Run (· != '\x7d') (x :: xs) ('\x7d' :: (b :: bs ++ (nameText p ++ tail))) :=
    ⟨fun c hc => by simp [hclosed c hc], by simp⟩
  have hskip : Run isBlank bs (nameText p ++ tail) := ⟨hbs, nameText_head hnamed⟩
  have hname := paramName?_nameText hnamed htail.head
  have htext := trailing?_of_form htail
  rw [param?, hrun.takeWhile, List.drop_left]
  simp only [List.cons_append, hb, if_true, hskip.dropWhile, hname, Option.bind_eq_bind,
    Option.bind_some, htext, ← htype]
  rfl

theorem form_of_param? (h : param? s = some p) : ParamForm s p := by
  unfold param? at h
  split at h
  · next s =>
    obtain ⟨type, after, rfl, hrun⟩ := exists_run (· != '\x7d') s
    simp only [hrun.takeWhile, List.drop_left] at h
    split at h
    · next x xs b rest =>
      split at h
      · next hb =>
        obtain ⟨bs, more, rfl, hskip⟩ := exists_run isBlank rest
        rw [hskip.dropWhile] at h
        simp only [Option.bind_eq_bind, Option.bind_eq_some_iff] at h
        obtain ⟨⟨name, required, default, tail⟩, hname, description, htext, hp⟩ := h
        obtain rfl := Option.some.inj hp
        obtain ⟨rfl, hnamed⟩ :=
          named_of_paramName? hname (String.ofList (trim (x :: xs))) description
        refine ⟨x :: xs, b :: bs, tail, rfl, List.cons_ne_nil x xs, by simpa using hrun.all, rfl,
          List.cons_ne_nil b bs, List.forall_mem_cons.mpr ⟨hb, hskip.all⟩, hnamed,
          form_of_trailing? htext⟩
      · cases h
    · cases h
  · cases h

end Param
end DocComment
end RouteBook
