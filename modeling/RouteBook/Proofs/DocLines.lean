import Mathlib.Data.List.Forall2
import RouteBook.DocComment.Parser
import RouteBook.Proofs.DocForms
import RouteBook.Proofs.Pairs

/-! What a documentation comment says, told for each thing on its own. Main statement: a comment is
read as just what its lines say, in whatever order and however often the tags come. -/
namespace RouteBook.DocComment

/-- A line of a comment: free text, or a tag and what follows it. -/
inductive Line where
  | free (text : String)
  | tag (name rest : String)

/-- What a line is: a tag line if it has the form of one, and free text otherwise. -/
def Line.Reads (line : String) : Line → Prop
  | .free text => text = line ∧ ∀ name rest, ¬ TagForm line.toList name rest
  | .tag name rest => TagForm line.toList name rest.toList

/-- The things that lines with a tag say, as far as they have the form, in the order of the
lines. -/
inductive Collects {α : Type} (name : String) (form : List Char → α → Prop) :
    List Line → List α → Prop where
  | nil : Collects name form [] []
  | keep {rest : String} {a : α} {ls : List Line} {as : List α} : form rest.toList a →
      Collects name form ls as → Collects name form (.tag name rest :: ls) (a :: as)
  | skip {l : Line} {ls : List Line} {as : List α} :
      (∀ rest a, l = .tag name rest → ¬ form rest.toList a) → Collects name form ls as →
      Collects name form (l :: ls) as

/-- The free text at the head of some lines, without empty lines. -/
def freeTexts : List Line → List String
  | .free text :: ls => if text = "" then freeTexts ls else text :: freeTexts ls
  | _ => []

/-- The runs of description text that begin with a description line and go on to the next tag. -/
def taggedRuns : List Line → List (List String)
  | [] => []
  | .free _ :: ls => taggedRuns ls
  | .tag name rest :: ls =>
    if name = "description" then
      ((if rest = "" then [] else [rest]) ++ freeTexts ls) :: taggedRuns ls
    else taggedRuns ls

/-- The last run of description text; the first run is the free text before all tags. -/
def lastRun (ls : List Line) : List String := (taggedRuns ls).getLastD (freeTexts ls)

/-- A text as it stands. -/
def Verbatim (s : List Char) (text : String) : Prop := text.toList = s

/-- A text as it stands that is not empty. -/
def Spoken (s : List Char) (text : String) : Prop := Verbatim s text ∧ text ≠ ""

/-- A route line of the right form, as it stands and with its path. -/
def RouteLine (s : List Char) (r : String × String) : Prop := Verbatim s r.1 ∧ RouteForm s r.2

/-- What lines say about a route, each thing told on its own: the last well-formed route line gives
the path, and the summary if the last summary line is not there or empty; the last run of
description text counts; parameters and security stand as they come; a response has the place of its
first line and the text of its last; tags are listed once. -/
structure Says (ls : List Line) (stop : Int) (f : DocFact) : Prop where
  heading : ∃ routes summaries, Collects "route" RouteLine ls routes ∧
    Collects "summary" Verbatim ls summaries ∧
    f.explicitPath = routes.getLast?.map Prod.snd ∧
    f.summary = if summaries.getLastD "" = "" then (routes.getLast?.map Prod.fst).getD ""
      else summaries.getLastD ""
  description : f.description = " ".intercalate (lastRun ls)
  parameters : Collects "param" ParamForm ls f.parameters
  responses : ∃ rs, Collects "response" ResponseForm ls rs ∧
    Pairs.keys f.responses = (Pairs.keys rs).eraseDups ∧
    ∀ code, Pairs.get? code f.responses = ((rs.filter (·.1 == code)).getLast?).map Prod.snd
  tags : ∃ ts, Collects "tag" Spoken ls ts ∧ f.tags = ts.eraseDups
  security : Collects "security" Spoken ls f.security
  endPosition : f.endPosition = stop

def tagNames (ls : List Line) : List String :=
  ls.filterMap fun
    | .free _ => none
    | .tag name _ => some name

/-- Whether free text belongs to the description after some lines. -/
def describing (ls : List Line) : Bool := (tagNames ls).getLast?.all (· == "description")

section Runs

theorem freeTexts_concat_tag (ls : List Line) (name rest : String) :
    freeTexts (ls ++ [.tag name rest]) = freeTexts ls := by
  induction ls with
  | nil => rfl
  | cons l ls ih => cases l <;> simp [freeTexts, ih]

theorem taggedRuns_concat_tag (ls : List Line) (name rest : String) :
    taggedRuns (ls ++ [.tag name rest]) = taggedRuns ls ++
      if name = "description" then [if rest = "" then [] else [rest]] else [] := by
  induction ls with
  | nil => by_cases hn : name = "description" <;> simp [taggedRuns, freeTexts, hn]
  | cons l ls ih =>
    cases l with
    | free text => simpa [taggedRuns] using ih
    | tag n r => by_cases hn : n = "description" <;> simp [taggedRuns, hn, ih, freeTexts_concat_tag]

theorem lastRun_concat_tag (ls : List Line) (name rest : String) :
    lastRun (ls ++ [.tag name rest]) =
      if name = "description" then (if rest = "" then [] else [rest]) else lastRun ls := by
  rw [lastRun, taggedRuns_concat_tag, freeTexts_concat_tag]
  by_cases hn : name = "description" <;> simp [hn, lastRun]

theorem describing_concat_tag (ls : List Line) (name rest : String) :
    describing (ls ++ [.tag name rest]) = (name == "description") := by
  simp [describing, tagNames]

theorem describing_concat_free (ls : List Line) (text : String) :
    describing (ls ++ [.free text]) = describing ls := by
  simp [describing, tagNames]

/-- A description line counts for what follows it only until the next tag. -/
theorem describing_cons_tag (ls : List Line) (name rest : String) :
    describing (.tag name rest :: ls) =
      if tagNames ls = [] then name == "description" else describing ls := by
  change (name :: tagNames ls).getLast?.all (· == "description") = _
  cases hlast : (tagNames ls).getLast? with
  | none => simp [List.getLast?_eq_none_iff.mp hlast]
  | some last =>
    have hne : tagNames ls ≠ [] := by
      intro hnil
      simp [hnil] at hlast
    simp [List.getLast?_cons, hne, describing, hlast]

theorem freeTexts_concat_free (ls : List Line) (text : String) :
    freeTexts (ls ++ [.free text]) =
      freeTexts ls ++ if tagNames ls = [] ∧ text ≠ "" then [text] else [] := by
  induction ls with
  | nil => by_cases ht : text = "" <;> simp [freeTexts, tagNames, ht]
  | cons l ls ih =>
    cases l with
    | free s => by_cases hs : s = "" <;> simpa [freeTexts, tagNames, hs] using ih
    | tag name rest => simp [freeTexts, tagNames]

theorem taggedRuns_of_no_tags {ls : List Line} (h : tagNames ls = []) : taggedRuns ls = [] := by
  induction ls with
  | nil => rfl
  | cons l ls ih =>
    cases l with
    | free text => exact ih h
    | tag name rest => cases h

/-- Free text goes on with the run that is open, if there is one. -/
theorem getLastD_taggedRuns_concat_free (ls : List Line) (text : String) (first : List String) :
    (taggedRuns (ls ++ [.free text])).getLastD
        (first ++ if tagNames ls = [] ∧ text ≠ "" then [text] else []) =
      (taggedRuns ls).getLastD first ++ if describing ls ∧ text ≠ "" then [text] else [] := by
  induction ls generalizing first with
  | nil => simp [taggedRuns, tagNames, describing]
  | cons l ls ih =>
    cases l with
    | free s => exact ih first
    | tag name rest =>
      have htags : tagNames (.tag name rest :: ls) ≠ [] := List.cons_ne_nil name (tagNames ls)
      rw [describing_cons_tag, if_neg (fun h => htags h.1), List.append_nil]
      by_cases hn : name = "description"
      · -- The new run is the first one for the lines after it.
        have hopen : (if tagNames ls = [] then name == "description" else describing ls) =
            describing ls := by
          split
          · next hnil => simp [describing, hnil, hn]
          · rfl
        rw [hopen, List.cons_append, taggedRuns, taggedRuns, if_pos hn, if_pos hn,
          List.getLastD_cons, List.getLastD_cons, freeTexts_concat_free, ← List.append_assoc]
        exact ih _
      · rw [List.cons_append, taggedRuns, taggedRuns, if_neg hn, if_neg hn]
        by_cases hnil : tagNames ls = []
        · have hfree : tagNames (ls ++ [.free text]) = [] := by simpa [tagNames] using hnil
          simp [taggedRuns_of_no_tags hnil, taggedRuns_of_no_tags hfree, hnil, hn]
        · simpa [hnil] using ih first

theorem lastRun_concat_free (ls : List Line) (text : String) :
    lastRun (ls ++ [.free text]) =
      lastRun ls ++ if describing ls ∧ text ≠ "" then [text] else [] := by
  rw [lastRun, freeTexts_concat_free]
  exact getLastD_taggedRuns_concat_free ls text (freeTexts ls)

end Runs
section Lines

def Line.ofText (line : String) : Line :=
  match tagged? line.toList with
  | none => .free line
  | some (name, rest) => .tag name (String.ofList rest)

theorem Line.ofText_free {line : String} (h : tagged? line.toList = none) :
    ofText line = .free line := by
  simp only [ofText, h]

theorem Line.ofText_tag {line name : String} {rest : List Char}
    (h : tagged? line.toList = some (name, rest)) :
    ofText line = .tag name (String.ofList rest) := by
  simp only [ofText, h]

theorem Line.reads_ofText (line : String) : Line.Reads line (ofText line) := by
  cases h : tagged? line.toList with
  | none =>
    rw [ofText_free h]
    refine ⟨rfl, fun name rest hform => ?_⟩
    rw [tagged?_eq_some_iff.mpr hform] at h
    cases h
  | some t =>
    obtain ⟨name, rest⟩ := t
    rw [ofText_tag h]
    change TagForm line.toList name (String.ofList rest).toList
    rw [String.toList_ofList]
    exact tagged?_eq_some_iff.mp h

end Lines

section Picks
variable {α : Type} {name : String} {read : List Char → Option α} {ls : List Line}

/-- What a line with a tag says, if it can be read. -/
def Line.pick (name : String) (read : List Char → Option α) : Line → Option α
  | .free _ => none
  | .tag n rest => if n = name then read rest.toList else none

/-- What the lines with a tag say, as far as they can be read. -/
def picks (name : String) (read : List Char → Option α) (ls : List Line) : List α :=
  ls.filterMap (Line.pick name read)

theorem picks_concat_free (ls : List Line) (text : String) :
    picks name read (ls ++ [.free text]) = picks name read ls := by
  simp [picks, Line.pick]

theorem picks_concat_tag (ls : List Line) (n rest : String) :
    picks name read (ls ++ [.tag n rest]) =
      picks name read ls ++ if n = name then (read rest.toList).toList else [] := by
  by_cases hn : n = name
  · cases hr : read rest.toList <;> simp [picks, Line.pick, hn, hr]
  · simp [picks, Line.pick, hn]

theorem Line.pick_eq_some_iff {l : Line} {a : α} :
    l.pick name read = some a ↔ ∃ rest, l = .tag name rest ∧ read rest.toList = some a := by
  cases l with
  | free text => simp [Line.pick]
  | tag n rest =>
    by_cases hn : n = name
    · simp [Line.pick, hn]
    · simp [Line.pick, hn]

theorem collects_iff {form : List Char → α → Prop} (h : ∀ s a, read s = some a ↔ form s a)
    {as : List α} : Collects name form ls as ↔ as = picks name read ls := by
  constructor
  · intro hc
    induction hc with
    | nil => rfl
    | @keep rest a ls as hform _ ih =>
      have hpick : (Line.tag name rest).pick name read = some a :=
        Line.pick_eq_some_iff.mpr ⟨rest, rfl, (h _ _).mpr hform⟩
      rw [picks, List.filterMap_cons_some hpick, ih]
      rfl
    | @skip l ls as hnot _ ih =>
      have hpick : l.pick name read = none := by
        refine Option.eq_none_iff_forall_not_mem.mpr fun a ha => ?_
        obtain ⟨rest, hl, hread⟩ := Line.pick_eq_some_iff.mp ha
        exact hnot rest a hl ((h _ _).mp hread)
      rw [picks, List.filterMap_cons_none hpick, ih]
      rfl
  · rintro rfl
    induction ls with
    | nil => exact .nil
    | cons l ls ih =>
      cases hpick : l.pick name read with
      | none =>
        rw [picks, List.filterMap_cons_none hpick]
        refine .skip (fun rest a hl hform => ?_) ih
        have hsome := Line.pick_eq_some_iff.mpr ⟨rest, hl, (h _ _).mpr hform⟩
        exact Option.some_ne_none a (hsome.symm.trans hpick)
      | some a =>
        rw [picks, List.filterMap_cons_some hpick]
        obtain ⟨rest, rfl, hread⟩ := Line.pick_eq_some_iff.mp hpick
        exact .keep ((h _ _).mp hread) ih

end Picks

section Content

def routeLine? (s : List Char) : Option (String × String) :=
  (routePath? s).map fun path => (String.ofList s, path)

def spoken? (s : List Char) : Option String := if s = [] then none else some (String.ofList s)

def content (ls : List Line) : Draft where
  hasRoute := (tagNames ls).contains "route"
  summary := (picks "summary" (some ∘ String.ofList) ls).getLastD ""
  routeSummary := ((picks "route" routeLine? ls).getLast?.map Prod.fst).getD ""
  explicitPath := (picks "route" routeLine? ls).getLast?.map Prod.snd
  parts := (lastRun ls).reverse
  collecting := describing ls
  parameters := picks "param" param? ls
  responses := Pairs.ofList (picks "response" response? ls)
  tags := (picks "tag" spoken? ls).eraseDups
  security := picks "security" spoken? ls

theorem tagNames_concat_tag (ls : List Line) (name rest : String) :
    tagNames (ls ++ [.tag name rest]) = tagNames ls ++ [name] := by
  simp [tagNames]

theorem tagNames_concat_free (ls : List Line) (text : String) :
    tagNames (ls ++ [.free text]) = tagNames ls := by
  simp [tagNames]

theorem content_concat_free (ls : List Line) (text : String) :
    content (ls ++ [.free text]) = (content ls).add (.text text) := by
  simp only [content, picks_concat_free, tagNames_concat_free, describing_concat_free,
    lastRun_concat_free, Draft.add]
  by_cases h : describing ls = true ∧ text ≠ "" <;> simp [h]

theorem content_concat_tag (ls : List Line) {line name : String} {rest : List Char}
    (h : tagged? line.toList = some (name, rest)) :
    content (ls ++ [.tag name (String.ofList rest)]) = (content ls).add (Entry.ofLine line) := by
  simp only [Entry.ofLine, h]
  split
  all_goals
    simp only [content, picks_concat_tag, tagNames_concat_tag, describing_concat_tag,
      lastRun_concat_tag, String.toList_ofList]
  · cases hpath : routePath? rest <;> simp [Draft.add, routeLine?, hpath]
  · simp [Draft.add]
  · by_cases hrest : rest = [] <;> simp [Draft.add, hrest]
  · cases hparam : param? rest <;> simp [Draft.add]
  · cases hresponse : response? rest <;> simp [Draft.add, Pairs.ofList_concat]
  · by_cases hrest : rest = []
    · simp [Draft.add, spoken?, hrest]
    · by_cases hmem : String.ofList rest ∈ picks "tag" spoken? ls <;>
        simp [Draft.add, spoken?, hrest, Pairs.eraseDups_concat, hmem]
  · by_cases hrest : rest = [] <;> simp [Draft.add, spoken?, hrest]
  · next hroute hsummary hdescription hparam hresponse htag hsecurity =>
    have hother : "route" ≠ name := fun he => hroute he.symm
    simp only [if_neg hroute, if_neg hsummary, if_neg hdescription, if_neg hparam,
      if_neg hresponse, if_neg htag, if_neg hsecurity]
    simpa [Draft.add, hother] using hdescription

theorem content_concat (ls : List Line) (line : String) :
    content (ls ++ [Line.ofText line]) = (content ls).add (Entry.ofLine line) := by
  cases h : tagged? line.toList with
  | none =>
    have hentry : Entry.ofLine line = .text line := by simp only [Entry.ofLine, h]
    rw [Line.ofText_free h, content_concat_free, hentry]
  | some t => rw [Line.ofText_tag h, content_concat_tag ls h]

/-- What the lines amount to one after the other is what they amount to as a whole. -/
theorem foldl_add_eq_content (texts : List String) :
    texts.foldl (fun (d : Draft) line => d.add (Entry.ofLine line)) {} =
      content (texts.map Line.ofText) := by
  induction texts using List.reverseRecOn with
  | nil => rfl
  | append_singleton texts line ih =>
    rw [List.foldl_append, List.foldl_cons, List.foldl_nil, ih, List.map_append, List.map_singleton,
      content_concat]

end Content

section Meaning
variable {ls : List Line} {stop : Int} {f : DocFact}

theorem routeLine?_eq_some_iff (s : List Char) (r : String × String) :
    routeLine? s = some r ↔ RouteLine s r := by
  constructor
  · intro h
    obtain ⟨path, hpath, rfl⟩ := Option.map_eq_some_iff.mp h
    exact ⟨String.toList_ofList, form_of_routePath? hpath⟩
  · intro ⟨hrest, hform⟩
    rw [routeLine?, routePath?_of_form hform, Option.map_some, ← hrest, String.ofList_toList]

theorem verbatim_iff (s : List Char) (text : String) :
    (some ∘ String.ofList) s = some text ↔ Verbatim s text := by
  rw [Function.comp_apply, Option.some.injEq, Verbatim]
  constructor
  · rintro rfl
    exact String.toList_ofList
  · rintro rfl
    exact String.ofList_toList

theorem spoken?_eq_some_iff (s : List Char) (text : String) :
    spoken? s = some text ↔ Spoken s text := by
  rw [spoken?]
  constructor
  · intro h
    split at h
    · cases h
    · next hs =>
      obtain rfl := Option.some.inj h
      exact ⟨String.toList_ofList, by simpa using hs⟩
  · rintro ⟨rfl, hne⟩
    rw [if_neg (by simpa using hne), String.ofList_toList]

theorem param?_eq_some_iff (s : List Char) (p : DocParam) : param? s = some p ↔ ParamForm s p :=
  ⟨form_of_param?, param?_of_form⟩

theorem hasRoute_content : (content ls).hasRoute = true ↔ ∃ rest, Line.tag "route" rest ∈ ls := by
  change (tagNames ls).contains "route" = true ↔ _
  rw [List.contains_iff_mem, tagNames, List.mem_filterMap]
  constructor
  · intro ⟨l, hl, hname⟩
    cases l with
    | free text => cases hname
    | tag name rest =>
      obtain rfl := Option.some.inj hname
      exact ⟨rest, hl⟩
  · intro ⟨rest, hl⟩
    exact ⟨.tag "route" rest, hl, rfl⟩

/-- Each thing that the lines amount to is what `Says` tells of it, and nothing else is. -/
theorem toFact?_content (h : (content ls).hasRoute = true) :
    (content ls).toFact? stop = some f ↔ Says ls stop f := by
  rw [Draft.toFact?, if_pos h]
  constructor
  · intro hf
    obtain rfl := Option.some.inj hf
    exact {
      heading := ⟨_, _, (collects_iff routeLine?_eq_some_iff).mpr rfl,
        (collects_iff verbatim_iff).mpr rfl, rfl, rfl⟩
      description := by simp [content]
      parameters := (collects_iff param?_eq_some_iff).mpr rfl
      responses := ⟨_, (collects_iff fun _ _ => response?_eq_some_iff).mpr rfl,
        Pairs.keys_ofList _, fun code => Pairs.get?_ofList code _⟩
      tags := ⟨_, (collects_iff spoken?_eq_some_iff).mpr rfl, rfl⟩
      security := (collects_iff spoken?_eq_some_iff).mpr rfl
      endPosition := rfl }
  · intro hs
    obtain ⟨summary, description, path, parameters, responses, tags, security, stop'⟩ := f
    obtain ⟨routes, summaries, hroutes, hsummaries, hpath, hsummary⟩ := hs.heading
    obtain ⟨rs, hrs, hkeys, hget⟩ := hs.responses
    obtain ⟨ts, hts, htags⟩ := hs.tags
    obtain rfl := (collects_iff routeLine?_eq_some_iff).mp hroutes
    obtain rfl := (collects_iff verbatim_iff).mp hsummaries
    obtain rfl := (collects_iff fun _ _ => response?_eq_some_iff).mp hrs
    obtain rfl := (collects_iff spoken?_eq_some_iff).mp hts
    obtain rfl : parameters = _ := (collects_iff param?_eq_some_iff).mp hs.parameters
    obtain rfl : security = _ := (collects_iff spoken?_eq_some_iff).mp hs.security
    -- The keys of responses and the values at them leave nothing open.
    have hresponses : Pairs.ofList (picks "response" response? ls) = responses :=
      Pairs.ext_of_nodup (Pairs.nodup_keys_ofList _) (by rw [Pairs.keys_ofList, hkeys])
        fun code => by rw [Pairs.get?_ofList, hget]
    obtain rfl : description = _ := hs.description
    obtain rfl : stop' = stop := hs.endPosition
    obtain rfl : path = _ := hpath
    obtain rfl : summary = _ := hsummary
    obtain rfl : tags = _ := htags
    simp [content, hresponses]

theorem toFact?_content_eq_none :
    (content ls).toFact? stop = none ↔ ∀ rest, .tag "route" rest ∉ ls := by
  rw [← not_exists, ← hasRoute_content, Draft.toFact?]
  split
  · next h => simp [h]
  · next h => simp [h]

theorem toFact?_content_eq_some : (content ls).toFact? stop = some f ↔
    (∃ rest, .tag "route" rest ∈ ls) ∧ Says ls stop f := by
  rw [← hasRoute_content]
  by_cases h : (content ls).hasRoute = true
  · rw [toFact?_content h, and_iff_right h]
  · simp [Draft.toFact?, h]

/-- What a comment says can be told line by line or thing by thing: it is there if a line has the
route tag, and then it is just what `Says` tells of its lines. -/
theorem comment_says_what_its_lines_say (text : String) (stop : Int) :
    ∃ ls, List.Forall₂ Line.Reads (lines text) ls ∧
      (parse? text stop = none ↔ ∀ rest, .tag "route" rest ∉ ls) ∧
      ∀ f, parse? text stop = some f ↔ (∃ rest, .tag "route" rest ∈ ls) ∧ Says ls stop f := by
  have hreads : List.Forall₂ Line.Reads (lines text) ((lines text).map Line.ofText) := by
    rw [List.forall₂_map_right_iff, List.forall₂_same]
    exact fun line _ => Line.reads_ofText line
  refine ⟨(lines text).map Line.ofText, hreads, ?_⟩
  rw [parse?, foldl_add_eq_content]
  exact ⟨toFact?_content_eq_none, fun f => toFact?_content_eq_some⟩

-- Tags in turn: the last run of text counts, and a response that comes again keeps its place.
example : parse? ("a\n@response 200 x\nb\n@description c\n\nd\n@response 404\n" ++
      "@response 200 y\n@route GET /a b\n@route GET a") 7 =
    some { summary := "GET /a b", description := "c d", explicitPath := some "/a",
           responses := [("200", "y"), ("404", "")], endPosition := 7 } := by
  decide +kernel

end Meaning
end RouteBook.DocComment
