import Mathlib.Data.List.Forall2
import RouteBook.Proofs.StatusCode

/-! The tables of the Markdown document. Main statement: whatever the texts of a route hold, each
parameter and each response takes one line of its table, and the cells of this line say what they
are meant to say. -/
namespace RouteBook.Markdown
variable {s t : List Char}

/-- The pieces of a line between its bars. A bar that directly follows a backslash does not cut, and
`guarded` says that there is one before the line. -/
def cutAtBars (guarded : Bool) : List Char → List (List Char)
  | [] => [[]]
  | c :: s =>
    if c = '|' ∧ guarded = false then [] :: cutAtBars false s
    else (cutAtBars (c == '\\') s).modifyHead (c :: ·)

/-- A text without the backslashes before its bars. -/
def unescapeBars : List Char → List Char
  | '\\' :: '|' :: s => '|' :: unescapeBars s
  | c :: s => c :: unescapeBars s
  | [] => []

/-- A text with blanks in the place of line feeds. -/
def flat (text : String) : List Char := text.toList.map fun c => if c = '\n' then ' ' else c

/-- A line whose cells, each between two blanks, hold these texts with their bars escaped. -/
def HoldsCells (line : String) (texts : List (List Char)) : Prop :=
  ∃ cells, cutAtBars false line.toList = [] :: (cells ++ [[]]) ∧
    List.Forall₂ (fun cell text => ∃ inner, cell = ' ' :: (inner ++ [' ']) ∧
      unescapeBars inner = text) cells texts

section Cells

def escaped (s : List Char) : List Char :=
  s.flatMap fun c => if c = '|' then ['\\', '|'] else if c = '\n' then [' '] else [c]

theorem toList_cell (text : String) : (cell text).toList = escaped text.toList :=
  String.toList_ofList

theorem escaped_bar (s : List Char) : escaped ('|' :: s) = '\\' :: '|' :: escaped s := rfl

theorem escaped_lineFeed (s : List Char) : escaped ('\n' :: s) = ' ' :: escaped s := rfl

theorem escaped_other {c : Char} (hb : c ≠ '|') (hn : c ≠ '\n') (s : List Char) :
    escaped (c :: s) = c :: escaped s := by
  simp [escaped, hb, hn]

/-- An escaped text never starts with a bar, so that a backslash before it escapes nothing. -/
theorem escaped_ne_bar (s t : List Char) : escaped s ≠ '|' :: t := by
  cases s with
  | nil => simp [escaped]
  | cons c s =>
    by_cases hb : c = '|'
    · simp [hb, escaped_bar]
    · by_cases hn : c = '\n'
      · simp [hn, escaped_lineFeed]
      · simp [escaped_other hb hn, hb]

theorem unescapeBars_cons {c : Char} (h : c = '\\' → ∀ t, s ≠ '|' :: t) :
    unescapeBars (c :: s) = c :: unescapeBars s := by
  conv_lhs => unfold unescapeBars
  split
  · next rest he =>
    obtain ⟨rfl, rfl⟩ := List.cons.inj he
    exact absurd rfl (h rfl rest)
  · next he =>
    obtain ⟨rfl, rfl⟩ := List.cons.inj he
    rfl
  · next he => cases he

theorem unescapeBars_escaped (s : List Char) :
    unescapeBars (escaped s) = s.map fun c => if c = '\n' then ' ' else c := by
  induction s with
  | nil => rfl
  | cons c s ih =>
    by_cases hb : c = '|'
    · subst hb
      rw [escaped_bar, unescapeBars, ih]
      rfl
    · by_cases hn : c = '\n'
      · subst hn
        rw [escaped_lineFeed, unescapeBars_cons (by simp), ih]
        rfl
      · rw [escaped_other hb hn, unescapeBars_cons fun _ t => escaped_ne_bar s t, ih]
        simp [hn]

theorem cutAtBars_cons {c : Char} {guarded : Bool} (h : c = '|' → guarded = true) :
    cutAtBars guarded (c :: s) = (cutAtBars (c == '\\') s).modifyHead (c :: ·) := by
  rw [cutAtBars, if_neg]
  rintro ⟨hc, hg⟩
  rw [h hc] at hg
  cases hg

/-- The bars of an escaped text do not cut, and the blank after it guards no bar. -/
theorem cutAtBars_escaped (s rest : List Char) (guarded : Bool) :
    cutAtBars guarded (escaped s ++ ' ' :: rest) =
      (cutAtBars false rest).modifyHead (escaped s ++ ' ' :: ·) := by
  induction s generalizing guarded with
  | nil => exact cutAtBars_cons (by simp)
  | cons c s ih =>
    by_cases hb : c = '|'
    · subst hb
      rw [escaped_bar, List.cons_append, List.cons_append, cutAtBars_cons (by simp),
        cutAtBars_cons (by simp), ih, List.modifyHead_modifyHead, List.modifyHead_modifyHead]
      rfl
    · by_cases hn : c = '\n'
      · subst hn
        rw [escaped_lineFeed, List.cons_append, cutAtBars_cons (by simp), ih,
          List.modifyHead_modifyHead]
        rfl
      · rw [escaped_other hb hn, List.cons_append, cutAtBars_cons (by simp [hb]), ih,
          List.modifyHead_modifyHead]
        rfl

end Cells

section Rows

def rowOf (texts : List String) : String :=
  texts.foldr (fun text rest => "| " ++ cell text ++ " " ++ rest) "|"

theorem cutAtBars_rowOf (texts : List String) : cutAtBars false (rowOf texts).toList =
    [] :: (texts.map (fun text => ' ' :: (escaped text.toList ++ [' '])) ++ [[]]) := by
  induction texts with
  | nil => rfl
  | cons text texts ih =>
    have hrow : (rowOf (text :: texts)).toList =
        '|' :: ' ' :: (escaped text.toList ++ ' ' :: (rowOf texts).toList) := by
      simp [rowOf, toList_cell]
    rw [hrow, cutAtBars, if_pos ⟨rfl, rfl⟩, cutAtBars_cons (by simp), cutAtBars_escaped, ih]
    rfl

theorem holdsCells_rowOf (texts : List String) : HoldsCells (rowOf texts) (texts.map flat) := by
  refine ⟨_, cutAtBars_rowOf texts, ?_⟩
  rw [List.forall₂_map_left_iff, List.forall₂_map_right_iff, List.forall₂_same]
  exact fun text _ => ⟨_, rfl, unescapeBars_escaped text.toList⟩

def dashed (text : String) : String := if text = "" then "-" else text

theorem cellOrDash_eq (text : String) : cellOrDash text = cell (dashed text) := by
  have hempty : cell text = "" ↔ text = "" := by
    rw [← String.toList_eq_nil_iff, ← String.toList_eq_nil_iff (b := text), toList_cell]
    cases text.toList with
    | nil => simp [escaped]
    | cons c s =>
      by_cases hb : c = '|'
      · simp [hb, escaped_bar]
      · by_cases hn : c = '\n'
        · simp [hn, escaped_lineFeed]
        · simp [escaped_other hb hn]
  rw [cellOrDash, dashed, if_congr hempty rfl rfl]
  split
  · rfl
  · rfl

theorem cell_of_not_mem {text : String} (hb : '|' ∉ text.toList) (hn : '\n' ∉ text.toList) :
    cell text = text := by
  have hsame : ∀ c ∈ text.toList,
      (if c = '|' then ['\\', '|'] else if c = '\n' then [' '] else [c]) = [c] := by
    intro c hc
    rw [if_neg (ne_of_mem_of_not_mem hc hb), if_neg (ne_of_mem_of_not_mem hc hn)]
  rw [← String.toList_inj, toList_cell, escaped, List.flatMap_congr hsame]
  simp

def requiredWord (p : Param) : String := if p.required then "Yes" else "No"

def paramTexts (p : Param) : List String := [p.name, p.type, requiredWord p, dashed p.description]

def responseTexts (r : String × String) : List String := [r.1, dashed r.2]

theorem paramRow_eq (p : Param) : paramRow p = rowOf (paramTexts p) := by
  have hword : cell (requiredWord p) = requiredWord p := by
    unfold requiredWord
    split <;> decide
  simp only [paramRow, cellOrDash_eq, rowOf, paramTexts, List.foldr_cons, List.foldr_nil, hword,
    String.append_assoc]
  rfl

theorem responseRow_eq {r : String × String} (h : ThreeDigits r.1) :
    responseRow r = rowOf (responseTexts r) := by
  have hcode : cell r.1 = r.1 := cell_of_not_mem (h.not_mem (by decide)) (h.not_mem (by decide))
  simp only [responseRow, cellOrDash_eq, rowOf, responseTexts, List.foldr_cons, List.foldr_nil,
    hcode, String.append_assoc]
  rfl

end Rows

section Tables

/-- The items of a route's section in front of its tables. -/
def opening (d : Descriptor) : List String :=
  [heading d, ""] ++ paragraph d.summary ++ paragraph d.description

def paramHead : List String :=
  ["**Parameters:**", "", "| Name | Type | Required | Description |",
    "|------|------|----------|-------------|"]

def responseHead : List String :=
  ["**Responses:**", "", "| Status | Description |", "|--------|-------------|"]

/-- The items of a route's section behind its tables. -/
def closing (d : Descriptor) : List String :=
  (if d.security.isEmpty then [] else ["**Security:** " ++ ", ".intercalate d.security, ""]) ++
    ["---", ""]

def sectionText (d : Descriptor) : String := "\n".intercalate (route d)

theorem linesOf_sectionText (d : Descriptor) :
    linesOf (sectionText d) = (route d).flatMap linesOf := by
  have hne : (route d).map String.toList ≠ [] := by simp [route]
  rw [linesOf, sectionText, String.toList_intercalate]
  change ((['\n'].intercalate ((route d).map String.toList)).splitOn '\n').map String.ofList = _
  rw [splitOn_joined hne, List.flatMap_map, List.map_flatMap]
  rfl

theorem route_eq (d : Descriptor) : route d = opening d ++
    (if d.parameters.isEmpty then [] else paramHead ++ d.parameters.map paramRow ++ [""]) ++
    responseHead ++ d.responses.map responseRow ++ [""] ++ closing d := by
  simp [route, opening, paramHead, responseHead, closing]

theorem flatMap_linesOf {items : List String} (h : ∀ item ∈ items, '\n' ∉ item.toList) :
    items.flatMap linesOf = items := by
  rw [List.flatMap_congr fun item hi => linesOf_of_not_mem (h item hi)]
  exact List.flatMap_singleton' items

/-- A table of parameters has one line for each of them, and a table of responses one for each that
has a code of three digits. The cells of this line are those of the texts it is made from, a dash
standing for an empty description and blanks for line feeds. -/
theorem tables_hold_their_cells (d : Descriptor) :
    ∃ (rows : List String) (responseRows : List (List String)),
      linesOf (sectionText d) = (opening d).flatMap linesOf ++
        (if d.parameters.isEmpty then [] else paramHead ++ rows ++ [""]) ++
        responseHead ++ responseRows.flatten ++ [""] ++ (closing d).flatMap linesOf ∧
      List.Forall₂ (fun p row => HoldsCells row ((paramTexts p).map flat)) d.parameters rows ∧
      List.Forall₂ (fun r lines => ThreeDigits r.1 →
        ∃ row, lines = [row] ∧ HoldsCells row ((responseTexts r).map flat))
        d.responses responseRows := by
  refine ⟨d.parameters.map paramRow, d.responses.map (linesOf ∘ responseRow), ?_, ?_, ?_⟩
  · have hrows : (d.parameters.map paramRow).flatMap linesOf = d.parameters.map paramRow := by
      refine flatMap_linesOf fun row hr => ?_
      obtain ⟨p, -, rfl⟩ := List.mem_map.mp hr
      exact oneLine_paramRow p
    have hparamHead : paramHead.flatMap linesOf = paramHead := flatMap_linesOf (by simp [paramHead])
    have hresponseHead : responseHead.flatMap linesOf = responseHead :=
      flatMap_linesOf (by simp [responseHead])
    have hresponses : (d.responses.map responseRow).flatMap linesOf =
        (d.responses.map (linesOf ∘ responseRow)).flatten := by
      rw [List.flatMap_map, List.flatMap_def]
      rfl
    have hempty : [""].flatMap linesOf = [""] := rfl
    rw [linesOf_sectionText, route_eq]
    cases d.parameters.isEmpty with
    | true =>
      simp only [if_true, List.flatMap_append, List.append_nil, hresponseHead, hresponses, hempty]
    | false =>
      simp only [Bool.false_eq_true, if_false, List.flatMap_append, hparamHead, hrows,
        hresponseHead, hresponses, hempty]
  · rw [List.forall₂_map_right_iff, List.forall₂_same]
    intro p _
    rw [paramRow_eq]
    exact holdsCells_rowOf (paramTexts p)
  · rw [List.forall₂_map_right_iff, List.forall₂_same]
    intro r _ hcode
    have hrow : '\n' ∉ (responseRow r).toList := by
      simp [responseRow, hcode.not_mem (c := '\n') (by decide), not_mem_cellOrDash]
    refine ⟨responseRow r, linesOf_of_not_mem hrow, ?_⟩
    rw [responseRow_eq hcode]
    exact holdsCells_rowOf (responseTexts r)

/-- A route whose cells hold bars, backslashes at their ends, and a line feed. -/
def barredRoute : Descriptor where
  method := .get
  path := "/"
  summary := ""
  parameters := [{
    name := "a|b\\", location := "query", required := false, type := "\\|", description := "|\n" }]
  responses := [("404", "")]
  operationId := ""

theorem tables_hold_their_cells_barred :
    (∃ row ∈ linesOf (sectionText barredRoute),
      HoldsCells row ["a|b\\".toList, "\\|".toList, "No".toList, "| ".toList]) ∧
    ThreeDigits "404" ∧
    ∃ row ∈ linesOf (sectionText barredRoute), HoldsCells row ["404".toList, "-".toList] := by
  have hcode : ThreeDigits "404" := ⟨by decide, by decide⟩
  obtain ⟨rows, responseRows, hlines, hparameters, hresponses⟩ :=
    tables_hold_their_cells barredRoute
  obtain ⟨row, _, hrow, hnone, rfl⟩ := List.forall₂_cons_left_iff.mp hparameters
  obtain ⟨lines, _, hcell, hnone', rfl⟩ := List.forall₂_cons_left_iff.mp hresponses
  obtain ⟨line, rfl, hline⟩ := hcell hcode
  refine ⟨⟨row, ?_, hrow⟩, hcode, line, ?_, hline⟩
  · rw [hlines]
    simp [barredRoute]
  · rw [hlines]
    simp

end Tables

end RouteBook.Markdown
