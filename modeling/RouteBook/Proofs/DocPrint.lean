import Mathlib.Data.Bool.AllAny
import RouteBook.DocComment.Parser
import RouteBook.Proofs.DocForms
import RouteBook.Proofs.Pairs

/-! Documentation comments as they are printed: one line for each thing that a fact says. Main
statement: what is printed is read back. -/
namespace RouteBook

namespace Text
variable {s t : List Char} {c : Char}

theorem trim_of_ends (hfirst : ∀ c ∈ s.head?, isBlank c = false)
    (hlast : ∀ c ∈ s.getLast?, isBlank c = false) : trim s = s := by
  rw [trim, dropWhile_of_head hfirst, dropWhile_of_head (by simpa using hlast),
    List.reverse_reverse]

/-- A text on one line without blanks at its ends. -/
structure Tidy (s : List Char) : Prop where
  line : ∀ c ∈ s, isLineEnd c = false
  first : ∀ c ∈ s.head?, isBlank c = false
  last : ∀ c ∈ s.getLast?, isBlank c = false

def isTidy (s : List Char) : Bool :=
  s.all (fun c => !isLineEnd c) && s.head?.all (fun c => !isBlank c) &&
    s.getLast?.all (fun c => !isBlank c)

theorem tidy_of_isTidy (h : isTidy s = true) : Tidy s := by
  simp only [isTidy, Bool.and_eq_true, List.all_eq_true, Bool.not_eq_true', Option.all_eq_true]
    at h
  exact ⟨h.1.1, h.1.2, h.2⟩

theorem Tidy.trim (h : Tidy s) : trim s = s := trim_of_ends h.first h.last

theorem Tidy.trim_blank (h : Tidy s) : Text.trim (' ' :: s) = s := by
  have hblank : isBlank ' ' = true := by decide
  have htrim := h.trim
  rw [Text.trim] at htrim ⊢
  rwa [List.dropWhile_cons_of_pos hblank]

theorem splitLinesFrom_line (hs : ∀ c ∈ s, isLineEnd c = false) (pending : List Char) :
    splitLinesFrom pending (s ++ '\n' :: t) = (pending.reverse ++ s) :: splitLinesFrom [] t := by
  induction s generalizing pending with
  | nil => simp [splitLinesFrom, isLineEnd]
  | cons c s ih =>
    have hc := hs c (by simp)
    have hr : c ≠ '\r' := by
      rintro rfl
      exact absurd hc (by decide)
    have hmore := ih (fun x hx => hs x (by simp [hx])) (c :: pending)
    rw [List.cons_append, splitLinesFrom, hc, if_neg (by simp), hmore]
    · simp
    · simp [hr]

theorem splitLines_line (hs : ∀ c ∈ s, isLineEnd c = false) :
    splitLines (s ++ '\n' :: t) = s :: splitLines t := splitLinesFrom_line hs []

theorem not_lineEnd_of_not_blank (h : isBlank c = false) : isLineEnd c = false := by
  rw [Bool.eq_false_iff]
  intro hl
  have hblank : isBlank c = true := by
    simp only [isLineEnd, Bool.or_eq_true, Bool.and_eq_true, decide_eq_true_eq, beq_iff_eq] at hl
    rw [isBlank, inRanges_iff]
    rcases hl with (((hl | hl) | hl) | hl) | hl
    · exact ⟨(9, 13), by decide, by omega⟩
    · exact ⟨(28, 32), by decide, by omega⟩
    · exact ⟨(133, 133), by decide, by omega⟩
    · exact ⟨(8232, 8233), by decide, by omega⟩
    · exact ⟨(8232, 8233), by decide, by omega⟩
  rw [h] at hblank
  cases hblank

theorem tidy_of_solid (h : ∀ c ∈ s, isBlank c = false) : Tidy s :=
  ⟨fun c hc => not_lineEnd_of_not_blank (h c hc), fun c hc => h c (List.mem_of_mem_head? hc),
    fun c hc => h c (List.mem_of_mem_getLast? hc)⟩

theorem Tidy.append (hs : ∀ c ∈ s, isLineEnd c = false)
    (hfirst : ∀ c ∈ (s ++ t).head?, isBlank c = false) (ht : Tidy t) (hne : t ≠ []) :
    Tidy (s ++ t) := by
  refine ⟨fun c hc => ?_, hfirst, ?_⟩
  · rcases List.mem_append.mp hc with hc | hc
    · exact hs c hc
    · exact ht.line c hc
  · rw [List.getLast?_append_of_ne_nil s hne]
    exact ht.last

end Text

namespace DocComment

def dashed (s : String) : List Char := if s = "" then [] else " - ".toList ++ s.toList

def paramText (p : DocParam) : List Char :=
  '\x7b' :: (p.type.toList ++ ("\x7d ".toList ++ (nameText p ++ dashed p.description)))

def tagLines (d : DocFact) : List (String × List Char) :=
  [("route", "GET ".toList ++ (d.explicitPath.getD "").toList), ("summary", d.summary.toList)] ++
  (if d.description = "" then [] else [("description", d.description.toList)]) ++
  d.parameters.map (fun p => ("param", paramText p)) ++
  d.responses.map (fun r => ("response", r.1.toList ++ dashed r.2)) ++
  d.tags.map (fun t => ("tag", t.toList)) ++
  d.security.map (fun s => ("security", s.toList))

/-- A line without its star. -/
def tagLine (l : String × List Char) : List Char := '@' :: (l.1.toList ++ ' ' :: l.2)

def innerText (d : DocFact) : List Char :=
  "*\n".toList ++ ((tagLines d).flatMap (fun l => " * ".toList ++ (tagLine l ++ ['\n'])) ++ [' '])

def commentText (d : DocFact) : List Char := "/*".toList ++ (innerText d ++ "*/".toList)

open Text (isTidy isBlank isDigit Tidy)

def isPrintableParam (p : DocParam) : Bool :=
  isTidy p.type.toList && p.type != "" && !p.type.toList.contains '\x7d' &&
  isTidy p.description.toList && p.name != "" && p.name.toList.all (fun c => !isBlank c) &&
  (if p.required then p.name.toList.all (fun c => c != '[' && c != ']') && p.default.isNone
  else p.name.toList.all (fun c => c != ']' && c != '=') &&
    p.default.all fun d => d.toList.all fun c => c != ']' && !Text.isLineEnd c)

def isPrintableResponse (r : String × String) : Bool :=
  r.1.length == 3 && r.1.toList.all isDigit && isTidy r.2.toList

def isPath (s : List Char) : Bool :=
  match s with
  | '/' :: rest => rest.all fun c => !isBlank c
  | _ => false

/-- Whether a fact can be printed: all texts are tidy, and none is missing that has to be there. -/
def isPrintable (d : DocFact) : Bool :=
  isTidy d.summary.toList && d.summary != "" && isTidy d.description.toList &&
  d.explicitPath.any (fun p => isPath p.toList) && d.parameters.all isPrintableParam &&
  d.responses.all isPrintableResponse && decide (Pairs.keys d.responses).Nodup &&
  d.tags.all (fun t => isTidy t.toList && t != "") && decide d.tags.Nodup &&
  d.security.all (fun s => isTidy s.toList && s != "")

section Parts
variable {p : DocParam} {r : String × String} {text : String} {s tail : List Char}

theorem toList_ne_nil (h : text ≠ "") : text.toList ≠ [] := by
  simpa using h

theorem trailing_dashed (h : Tidy text.toList) : Trailing (dashed text) text := by
  unfold dashed
  split
  · next he =>
    rw [he]
    exact .none
  · have htext : Trailing ([' '] ++ '-' :: ' ' :: text.toList)
        (String.ofList (Text.trim (' ' :: text.toList))) :=
      .dashed (by simp) (by simp; decide)
    rwa [h.trim_blank, String.ofList_toList] at htext

theorem tidy_dashed (hs : Tidy s) (hne : s ≠ []) (ht : Tidy text.toList) :
    Tidy (s ++ dashed text) := by
  unfold dashed
  split
  · rwa [List.append_nil]
  · next h =>
    have hdash : ∀ c ∈ " - ".toList, Text.isLineEnd c = false :=
      List.all_iff_forall_prop.mp (by decide)
    rw [← List.append_assoc]
    refine Tidy.append (fun c hc => ?_) ?_ ht (toList_ne_nil h)
    · rcases List.mem_append.mp hc with hc | hc
      · exact hs.line c hc
      · exact hdash c hc
    · rw [List.append_assoc, List.head?_append_of_ne_nil s hne]
      exact hs.first

structure PrintableParam (p : DocParam) : Prop where
  type : Tidy p.type.toList
  type_ne : p.type ≠ ""
  type_closed : ∀ c ∈ p.type.toList, c ≠ '\x7d'
  description : Tidy p.description.toList
  name_ne : p.name ≠ ""
  name : ∀ c ∈ p.name.toList, isBlank c = false
  required : p.required = true → (∀ c ∈ p.name.toList, c ≠ '[' ∧ c ≠ ']') ∧ p.default = none
  optional : p.required = false → (∀ c ∈ p.name.toList, c ≠ ']' ∧ c ≠ '=') ∧
    ∀ d ∈ p.default, ∀ c ∈ d.toList, c ≠ ']' ∧ Text.isLineEnd c = false

theorem printableParam_of (h : isPrintableParam p = true) : PrintableParam p := by
  simp only [isPrintableParam, Bool.and_eq_true, bne_iff_ne, Bool.not_eq_true', List.all_eq_true]
    at h
  obtain ⟨⟨⟨⟨⟨⟨htype, hne⟩, hclosed⟩, hdesc⟩, hname⟩, hblank⟩, hrest⟩ := h
  refine ⟨Text.tidy_of_isTidy htype, hne, ?_, Text.tidy_of_isTidy hdesc, hname, hblank, ?_, ?_⟩
  · rintro c hc rfl
    rw [List.contains_eq_mem, decide_eq_false_iff_not] at hclosed
    exact hclosed hc
  · intro hreq
    simpa [hreq] using hrest
  · intro hreq
    simpa [hreq, Option.all_eq_true] using hrest

theorem PrintableParam.named (h : PrintableParam p) : Named p :=
  ⟨h.name_ne, h.name, h.required,
    fun hreq => ⟨(h.optional hreq).1, fun d hd c hc => ((h.optional hreq).2 d hd c hc).1⟩⟩

theorem tidy_nameText (h : PrintableParam p) : Tidy (nameText p) ∧ nameText p ≠ [] := by
  have hname := Text.tidy_of_solid h.name
  unfold nameText
  split
  · exact ⟨hname, toList_ne_nil h.name_ne⟩
  · next hreq =>
    obtain ⟨-, hdefault⟩ := h.optional (by simpa using hreq)
    have hvalue : ∀ c ∈ (p.default.map fun d => '=' :: d.toList).getD [],
        Text.isLineEnd c = false := by
      cases hd : p.default with
      | none => simp
      | some d =>
        intro c hc
        rcases List.mem_cons.mp hc with rfl | hc
        · decide
        · exact (hdefault d hd c hc).2
    have hclose : Tidy [']'] := Text.tidy_of_solid (List.all_iff_forall_prop.mp (by decide))
    have hbrackets : Tidy (('[' :: (p.name.toList ++
        (p.default.map fun d => '=' :: d.toList).getD [])) ++ [']']) := by
      refine Tidy.append (fun c hc => ?_) (by simp; decide) hclose (by simp)
      rcases List.mem_cons.mp hc with rfl | hc
      · decide
      · rcases List.mem_append.mp hc with hc | hc
        · exact hname.line c hc
        · exact hvalue c hc
    exact ⟨by simpa using hbrackets, by simp⟩

theorem tidy_named (h : PrintableParam p) :
    Tidy (nameText p ++ dashed p.description) ∧ nameText p ++ dashed p.description ≠ [] := by
  obtain ⟨hname, hne⟩ := tidy_nameText h
  exact ⟨tidy_dashed hname hne h.description, by simp [hne]⟩

theorem param?_paramText (h : PrintableParam p) : param? (paramText p) = some p :=
  param?_of_form ⟨p.type.toList, [' '], dashed p.description, rfl, toList_ne_nil h.type_ne,
    h.type_closed, by rw [h.type.trim, String.ofList_toList], by simp, by simp; decide, h.named,
    trailing_dashed h.description⟩

theorem tidy_paramText (h : PrintableParam p) : Tidy (paramText p) := by
  obtain ⟨hnamed, hne⟩ := tidy_named h
  have hlead : Tidy (('\x7b' :: (p.type.toList ++ "\x7d ".toList)) ++
      (nameText p ++ dashed p.description)) := by
    have hclose : ∀ c ∈ "\x7d ".toList, Text.isLineEnd c = false :=
      List.all_iff_forall_prop.mp (by decide)
    refine Tidy.append (fun c hc => ?_) (by simp; decide) hnamed hne
    rcases List.mem_cons.mp hc with rfl | hc
    · decide
    · rcases List.mem_append.mp hc with hc | hc
      · exact h.type.line c hc
      · exact hclose c hc
  simpa [paramText] using hlead

theorem response?_text (h : isPrintableResponse r = true) :
    response? (r.1.toList ++ dashed r.2) = some r := by
  simp only [isPrintableResponse, Bool.and_eq_true, beq_iff_eq, List.all_eq_true] at h
  obtain ⟨⟨hlen, hdigits⟩, htext⟩ := h
  exact response?_eq_some_iff.mpr
    ⟨dashed r.2, rfl, hlen, hdigits, trailing_dashed (Text.tidy_of_isTidy htext)⟩

theorem tidy_responseText (h : isPrintableResponse r = true) :
    Tidy (r.1.toList ++ dashed r.2) ∧ r.1.toList ++ dashed r.2 ≠ [] := by
  simp only [isPrintableResponse, Bool.and_eq_true, beq_iff_eq] at h
  obtain ⟨⟨hlen, hdigits⟩, htext⟩ := h
  have hne : r.1.toList ≠ [] := by
    rw [← String.length_toList] at hlen
    intro hnil
    simp [hnil] at hlen
  have hcode : Tidy r.1.toList := Text.tidy_of_solid fun c hc =>
    Text.not_blank_of_isDigit (List.all_eq_true.mp hdigits c hc)
  exact ⟨tidy_dashed hcode hne (Text.tidy_of_isTidy htext), by simp [hne]⟩

theorem isPath_cases {path : List Char} (h : isPath path = true) :
    ∃ rest, path = '/' :: rest ∧ ∀ c ∈ rest, isBlank c = false := by
  unfold isPath at h
  split at h
  · next rest => exact ⟨rest, rfl, by simpa using h⟩
  · cases h

theorem routePath?_text {path : String} (h : isPath path.toList = true) :
    routePath? ("GET ".toList ++ path.toList) = some path := by
  obtain ⟨rest, hpath, hrest⟩ := isPath_cases h
  refine routePath?_of_form ⟨"GET".toList, [' '], rest, [], by simp [hpath], hpath, by simp,
    List.all_eq_true.mp (by decide +kernel), by simp, by simp; decide, ?_, by simp⟩
  exact fun c hc => by simp [hrest c hc]

end Parts

section Lines
variable {d : DocFact} {l : String × List Char}

def tagWords : List String :=
  ["route", "summary", "description", "param", "response", "tag", "security"]

/-- A line as it is printed: a known tag and a tidy text. -/
structure Written (l : String × List Char) : Prop where
  word : l.1 ∈ tagWords
  text : Tidy l.2
  text_ne : l.2 ≠ []

theorem word_chars {w : String} (h : w ∈ tagWords) :
    w.toList ≠ [] ∧ ∀ c ∈ w.toList, Text.isWord c = true ∧ Text.isLineEnd c = false := by
  have hall : tagWords.all (fun w => w.toList != [] && w.toList.all fun c =>
      Text.isWord c && !Text.isLineEnd c) = true := by decide +kernel
  have hw := List.all_eq_true.mp hall w h
  simpa using hw

theorem tagged?_tagLine (h : Written l) : tagged? (tagLine l) = some l := by
  obtain ⟨hne, hchars⟩ := word_chars h.word
  refine tagged?_eq_some_iff.mpr ⟨' ' :: l.2, rfl, by simpa using hne,
    ⟨fun c hc => (hchars c hc).1, by simp; decide +kernel⟩, h.text.trim_blank.symm⟩

theorem tidy_tagLine (h : Written l) : Tidy (tagLine l) := by
  obtain ⟨-, hchars⟩ := word_chars h.word
  have hline : Tidy (('@' :: (l.1.toList ++ [' '])) ++ l.2) := by
    refine Tidy.append (fun c hc => ?_) (by simp; decide) h.text h.text_ne
    rcases List.mem_cons.mp hc with rfl | hc
    · decide
    · rcases List.mem_append.mp hc with hc | hc
      · exact (hchars c hc).2
      · rw [List.mem_singleton.mp hc]
        decide
  simpa [tagLine] using hline

/-- The line of a tag without its star and the blanks around. -/
theorem line_tagLine (h : Written l) :
    Text.trim (dropStars (Text.trim (" * ".toList ++ tagLine l))) = tagLine l := by
  have htag := tidy_tagLine h
  have hstar : Tidy ("* ".toList ++ tagLine l) :=
    Tidy.append (List.all_iff_forall_prop.mp (by decide)) (by simp; decide) htag
      (by simp [tagLine])
  have htrim : Text.trim (" * ".toList ++ tagLine l) = "* ".toList ++ tagLine l := hstar.trim_blank
  rw [htrim]
  exact htag.trim

theorem splitLines_tagLines {ls : List (String × List Char)} (h : ∀ l ∈ ls, Written l) :
    Text.splitLines (ls.flatMap (fun l => " * ".toList ++ (tagLine l ++ ['\n'])) ++ [' ']) =
      ls.map (fun l => " * ".toList ++ tagLine l) ++ [[' ']] := by
  induction ls with
  | nil => rfl
  | cons l ls ih =>
    have hstar : ∀ c ∈ " * ".toList, Text.isLineEnd c = false :=
      List.all_iff_forall_prop.mp (by decide)
    have hline : ∀ c ∈ " * ".toList ++ tagLine l, Text.isLineEnd c = false := by
      intro c hc
      rcases List.mem_append.mp hc with hc | hc
      · exact hstar c hc
      · exact (tidy_tagLine (h l (by simp))).line c hc
    have hmore := ih fun x hx => h x (by simp [hx])
    have hsplit := Text.splitLines_line (t := ls.flatMap
      (fun l => " * ".toList ++ (tagLine l ++ ['\n'])) ++ [' ']) hline
    rw [hmore] at hsplit
    simpa using hsplit

theorem body_commentText (d : DocFact) : body (commentText d) = innerText d := by
  have hstart : commentText d = '/' :: '*' :: (innerText d ++ "*/".toList) := rfl
  have hend : (innerText d ++ "*/".toList).reverse = '/' :: '*' :: (innerText d).reverse := by
    rw [List.reverse_append]
    rfl
  rw [hstart]
  simp only [body, hend, List.reverse_reverse]

theorem lines_commentText (h : ∀ l ∈ tagLines d, Written l) :
    lines (String.ofList (commentText d)) =
      "" :: ((tagLines d).map (fun l => String.ofList (tagLine l)) ++ [""]) := by
  have hfirst := Text.splitLines_line (s := ['*']) (t := (tagLines d).flatMap
    (fun l => " * ".toList ++ (tagLine l ++ ['\n'])) ++ [' '])
    (List.all_iff_forall_prop.mp (by decide))
  rw [splitLines_tagLines h] at hfirst
  have hinner : Text.splitLines (innerText d) = _ := hfirst
  rw [lines, String.toList_ofList, body_commentText, hinner]
  simp only [List.map_cons, List.map_append, List.map_map, List.map_nil]
  refine congrArg₂ List.cons rfl (congrArg₂ (· ++ ·) ?_ rfl)
  refine List.map_congr_left fun l hl => ?_
  exact congrArg String.ofList (line_tagLine (h l hl))

end Lines

section Facts
variable {d : DocFact} {b : Draft}

structure Printable (d : DocFact) : Prop where
  summary : Tidy d.summary.toList
  summary_ne : d.summary ≠ ""
  description : Tidy d.description.toList
  path : ∃ p, d.explicitPath = some p ∧ isPath p.toList = true
  parameters : ∀ p ∈ d.parameters, PrintableParam p
  responses : ∀ r ∈ d.responses, isPrintableResponse r = true
  codes : (Pairs.keys d.responses).Nodup
  tags : ∀ t ∈ d.tags, Tidy t.toList ∧ t ≠ ""
  distinct : d.tags.Nodup
  security : ∀ s ∈ d.security, Tidy s.toList ∧ s ≠ ""

theorem printable_of (h : isPrintable d = true) : Printable d := by
  simp only [isPrintable, Bool.and_eq_true, List.all_eq_true, bne_iff_ne, decide_eq_true_eq] at h
  obtain ⟨⟨⟨⟨⟨⟨⟨⟨⟨hsummary, hne⟩, hdesc⟩, hpath⟩, hparams⟩, hresp⟩, hcodes⟩, htags⟩, hdist⟩,
    hsec⟩ := h
  refine ⟨Text.tidy_of_isTidy hsummary, hne, Text.tidy_of_isTidy hdesc, ?_,
    fun p hp => printableParam_of (hparams p hp), hresp, hcodes,
    fun t ht => ⟨Text.tidy_of_isTidy (htags t ht).1, (htags t ht).2⟩, hdist,
    fun s hs => ⟨Text.tidy_of_isTidy (hsec s hs).1, (hsec s hs).2⟩⟩
  cases hp : d.explicitPath with
  | none => simp [hp] at hpath
  | some p => exact ⟨p, rfl, by simpa [hp] using hpath⟩

theorem written_tagLines (h : Printable d) : ∀ l ∈ tagLines d, Written l := by
  obtain ⟨path, hpath, hslash⟩ := h.path
  have hroute : Written ("route", "GET ".toList ++ path.toList) := by
    obtain ⟨rest, hrest, hsolid⟩ := isPath_cases hslash
    have htidy : Tidy path.toList := by
      rw [hrest]
      refine Text.tidy_of_solid fun c hc => ?_
      rcases List.mem_cons.mp hc with rfl | hc
      · decide
      · exact hsolid c hc
    exact ⟨by simp [tagWords],
      Tidy.append (List.all_iff_forall_prop.mp (by decide)) (by simp; decide) htidy
        (by simp [hrest]), by simp⟩
  have hplain (w : String) (hw : w ∈ tagWords) (s : String) (hs : Tidy s.toList) (hne : s ≠ "") :
      Written (w, s.toList) := ⟨hw, hs, toList_ne_nil hne⟩
  intro l hl
  simp only [tagLines, hpath, Option.getD_some, List.mem_append, List.mem_cons, List.not_mem_nil,
    or_false, List.mem_map] at hl
  rcases hl with
    (((((rfl | rfl) | hl) | ⟨p, hp, rfl⟩) | ⟨r, hr, rfl⟩) | ⟨t, ht, rfl⟩) | ⟨s, hs, rfl⟩
  · exact hroute
  · exact hplain _ (by decide) _ h.summary h.summary_ne
  · split at hl
    · cases hl
    · next hne =>
      rw [List.mem_singleton.mp hl]
      exact hplain _ (by decide) _ h.description hne
  · exact ⟨by simp [tagWords], tidy_paramText (h.parameters p hp), by simp [paramText]⟩
  · obtain ⟨htidy, hne⟩ := tidy_responseText (h.responses r hr)
    exact ⟨by simp [tagWords], htidy, hne⟩
  · exact hplain _ (by decide) _ (h.tags t ht).1 (h.tags t ht).2
  · exact hplain _ (by decide) _ (h.security s hs).1 (h.security s hs).2

def addLines (b : Draft) (ls : List (String × List Char)) : Draft :=
  ls.foldl (fun b l => b.add (Entry.ofLine (String.ofList (tagLine l)))) b

theorem addLines_append (b : Draft) (ls ms : List (String × List Char)) :
    addLines b (ls ++ ms) = addLines (addLines b ls) ms := List.foldl_append

theorem addLines_cons (b : Draft) (l : String × List Char) (ls : List (String × List Char)) :
    addLines b (l :: ls) = addLines (b.add (Entry.ofLine (String.ofList (tagLine l)))) ls := rfl

theorem ofLine_tagLine {l : String × List Char} (h : Written l) :
    tagged? (String.ofList (tagLine l)).toList = some l := by
  rw [String.toList_ofList, tagged?_tagLine h]

theorem addLines_params {ps : List DocParam} (h : ∀ p ∈ ps, PrintableParam p) (b : Draft) :
    addLines b (ps.map fun p => ("param", paramText p)) =
      { b with parameters := b.parameters ++ ps, collecting := b.collecting && ps.isEmpty } := by
  induction ps generalizing b with
  | nil => simp [addLines]
  | cons p ps ih =>
    have hp := h p (by simp)
    have hline : Written ("param", paramText p) :=
      ⟨by simp [tagWords], tidy_paramText hp, by simp [paramText]⟩
    have hentry : Entry.ofLine (String.ofList (tagLine ("param", paramText p))) = .param p := by
      simp only [Entry.ofLine, ofLine_tagLine hline, param?_paramText hp]
    rw [List.map_cons, addLines_cons, hentry, ih fun x hx => h x (by simp [hx])]
    simp [Draft.add]

theorem addLines_responses {rs : List (String × String)}
    (h : ∀ r ∈ rs, isPrintableResponse r = true) (b : Draft)
    (hd : (Pairs.keys (b.responses ++ rs)).Nodup) :
    addLines b (rs.map fun r => ("response", r.1.toList ++ dashed r.2)) =
      { b with responses := b.responses ++ rs, collecting := b.collecting && rs.isEmpty } := by
  induction rs generalizing b with
  | nil => simp [addLines]
  | cons r rs ih =>
    have hr := h r (by simp)
    obtain ⟨htidy, hne⟩ := tidy_responseText hr
    have hline : Written ("response", r.1.toList ++ dashed r.2) := ⟨by simp [tagWords], htidy, hne⟩
    have hentry : Entry.ofLine (String.ofList (tagLine ("response", r.1.toList ++ dashed r.2))) =
        .response r.1 r.2 := by
      simp only [Entry.ofLine, ofLine_tagLine hline, response?_text hr]
    have hfresh : Pairs.put r.1 r.2 b.responses = b.responses ++ [r] := by
      refine Pairs.put_of_fresh r.2 fun q hq => beq_eq_false_iff_ne.mpr fun he => ?_
      rw [Pairs.keys, List.map_append, List.nodup_append] at hd
      exact hd.2.2 q.1 (List.mem_map_of_mem hq) r.1 (by simp) he
    have hmore := ih (fun x hx => h x (by simp [hx])) (b.add (.response r.1 r.2))
      (by simpa [Draft.add, hfresh] using hd)
    rw [List.map_cons, addLines_cons, hentry, hmore]
    simp [Draft.add, hfresh]

theorem addLines_tags {ts : List String} (h : ∀ t ∈ ts, Tidy t.toList ∧ t ≠ "") (b : Draft)
    (hd : (b.tags ++ ts).Nodup) :
    addLines b (ts.map fun t => ("tag", t.toList)) =
      { b with tags := b.tags ++ ts, collecting := b.collecting && ts.isEmpty } := by
  induction ts generalizing b with
  | nil => simp [addLines]
  | cons t ts ih =>
    obtain ⟨htidy, hne⟩ := h t (by simp)
    have hline : Written ("tag", t.toList) := ⟨by simp [tagWords], htidy, toList_ne_nil hne⟩
    have hentry : Entry.ofLine (String.ofList (tagLine ("tag", t.toList))) = .tag t := by
      simp only [Entry.ofLine, ofLine_tagLine hline, String.ofList_toList]
    have hnew : t ∉ b.tags := by
      rw [List.nodup_append] at hd
      exact fun hmem => hd.2.2 t hmem t (by simp) rfl
    have hadd : b.add (.tag t) = { b with collecting := false, tags := b.tags ++ [t] } := by
      simp [Draft.add, hne, hnew]
    have hmore := ih (fun x hx => h x (by simp [hx])) (b.add (.tag t))
      (by simpa [hadd] using hd)
    rw [List.map_cons, addLines_cons, hentry, hmore]
    simp [hadd]

theorem addLines_security {ss : List String} (h : ∀ s ∈ ss, Tidy s.toList ∧ s ≠ "") (b : Draft) :
    addLines b (ss.map fun s => ("security", s.toList)) =
      { b with security := b.security ++ ss, collecting := b.collecting && ss.isEmpty } := by
  induction ss generalizing b with
  | nil => simp [addLines]
  | cons s ss ih =>
    obtain ⟨htidy, hne⟩ := h s (by simp)
    have hline : Written ("security", s.toList) := ⟨by simp [tagWords], htidy, toList_ne_nil hne⟩
    have hentry : Entry.ofLine (String.ofList (tagLine ("security", s.toList))) = .security s := by
      simp only [Entry.ofLine, ofLine_tagLine hline, String.ofList_toList]
    have hadd : b.add (.security s) =
        { b with collecting := false, security := b.security ++ [s] } := by
      simp [Draft.add, hne]
    rw [List.map_cons, addLines_cons, hentry, ih fun x hx => h x (by simp [hx])]
    simp [hadd]

/-- The lines about the whole: path, summary and description. -/
theorem addLines_head {path : String} (h : Printable d) (hpath : d.explicitPath = some path)
    (hslash : isPath path.toList = true) :
    addLines {} ([("route", "GET ".toList ++ (d.explicitPath.getD "").toList),
      ("summary", d.summary.toList)] ++
      (if d.description = "" then [] else [("description", d.description.toList)])) =
      { hasRoute := true
        summary := d.summary
        routeSummary := String.ofList ("GET ".toList ++ path.toList)
        explicitPath := some path
        parts := if d.description = "" then [] else [d.description]
        collecting := d.description != "" } := by
  have hwritten := written_tagLines h
  have hroute : Entry.ofLine (String.ofList (tagLine ("route", "GET ".toList ++ path.toList))) =
      .route (String.ofList ("GET ".toList ++ path.toList)) (some path) := by
    have hline := hwritten ("route", "GET ".toList ++ path.toList) (by simp [tagLines, hpath])
    simp only [Entry.ofLine, ofLine_tagLine hline, routePath?_text hslash]
  have hsummary : Entry.ofLine (String.ofList (tagLine ("summary", d.summary.toList))) =
      .summary d.summary := by
    have hline := hwritten ("summary", d.summary.toList) (by simp [tagLines])
    simp only [Entry.ofLine, ofLine_tagLine hline, String.ofList_toList]
  rw [hpath, Option.getD_some, addLines_append, addLines_cons, addLines_cons, hroute, hsummary]
  split
  · next he => simp [addLines, Draft.add, he]
  · next hne =>
    have hline := hwritten ("description", d.description.toList) (by simp [tagLines, hne])
    have hdesc : Entry.ofLine (String.ofList (tagLine ("description", d.description.toList))) =
        .description d.description := by
      simp only [Entry.ofLine, ofLine_tagLine hline, String.ofList_toList]
    rw [addLines_cons, hdesc]
    simp [addLines, Draft.add, hne]

theorem foldl_lines (h : Printable d) :
    (lines (String.ofList (commentText d))).foldl
      (fun (b : Draft) line => b.add (Entry.ofLine line)) {} = addLines {} (tagLines d) := by
  have hblank (b : Draft) : b.add (Entry.ofLine "") = b := by
    have hentry : Entry.ofLine "" = .text "" := by decide
    simp [hentry, Draft.add]
  rw [lines_commentText (written_tagLines h), List.foldl_cons, hblank, List.foldl_append,
    List.foldl_map, List.foldl_cons, hblank, List.foldl_nil, addLines]

def draftOf (d : DocFact) : Draft :=
  { hasRoute := true
    summary := d.summary
    routeSummary := String.ofList ("GET ".toList ++ (d.explicitPath.getD "").toList)
    explicitPath := d.explicitPath
    parts := if d.description = "" then [] else [d.description]
    collecting := d.description != "" && d.parameters.isEmpty && d.responses.isEmpty &&
      d.tags.isEmpty && d.security.isEmpty
    parameters := d.parameters
    responses := d.responses
    tags := d.tags
    security := d.security }

theorem addLines_tagLines (h : Printable d) : addLines {} (tagLines d) = draftOf d := by
  obtain ⟨path, hpath, hslash⟩ := h.path
  rw [tagLines, addLines_append, addLines_append, addLines_append, addLines_append,
    addLines_head h hpath hslash, addLines_params h.parameters,
    addLines_responses h.responses _ (by simpa using h.codes),
    addLines_tags h.tags _ (by simpa using h.distinct), addLines_security h.security]
  simp [draftOf, hpath]

theorem toFact?_draftOf (h : Printable d) (stop : Int) :
    (draftOf d).toFact? stop = some { d with endPosition := stop } := by
  have hdesc : " ".intercalate (if d.description = "" then [] else [d.description]).reverse =
      d.description := by
    split
    · next he =>
      rw [he]
      rfl
    · rfl
  simp [Draft.toFact?, draftOf, h.summary_ne, hdesc]

/-- A fact that is printed as a comment is read back from it, with the place where the comment
ends. -/
theorem printed_comment_is_read_back (d : DocFact) (h : isPrintable d = true) (stop : Int) :
    parse? (String.ofList (commentText d)) stop = some { d with endPosition := stop } := by
  have hp := printable_of h
  rw [parse?, foldl_lines hp, addLines_tagLines hp, toFact?_draftOf hp]

/-- A fact in which marks stand where they may be taken for something else. -/
def crowded : DocFact :=
  { summary := "@tag * - é"
    description := "- @summary x"
    explicitPath := some "/:a/*"
    parameters := [
      { name := "-", type := "[a] \x7b", description := "- d" },
      { name := "@q[", type := "t", required := false, default := some "" },
      { name := "r", type := "t", required := false, description := "*", default := some " = " },
      { name := "s", type := "t", required := false }]
    responses := [("٣00", "-"), ("200", "")]
    tags := ["-", "@tag a"]
    security := ["*", "*"]
    endPosition := 0 }

theorem printed_comment_is_read_back_crowded :
    isPrintable crowded = true ∧
    parse? (String.ofList (commentText crowded)) 7 = some { crowded with endPosition := 7 } := by
  have h : isPrintable crowded = true := by decide +kernel
  exact ⟨h, printed_comment_is_read_back crowded h 7⟩

end Facts

end DocComment

end RouteBook
