import Mathlib.Data.List.Sort
import RouteBook.Proofs.DocPrint
import RouteBook.Proofs.Extraction
import RouteBook.Proofs.LiteralText
import RouteBook.Proofs.Pairing
import RouteBook.Proofs.RouteOrder
import RouteBook.Proofs.Source.Listing

/-! Texts of documented routes as they are printed: a comment if there is one, and a call on a line
of its own. Main statement: what is printed is extracted again, with the byte offsets of the calls
and the nearest comments. -/
namespace RouteBook

namespace Method

def IsSpelled (m : Method) (verb : List Char) : Prop := verb.map Char.toUpper = m.name.toList

instance (m : Method) (verb : List Char) : Decidable (m.IsSpelled verb) :=
  inferInstanceAs (Decidable (verb.map Char.toUpper = m.name.toList))

theorem isAlpha_of_toUpper {a : Char} {m : Method} (h : a.toUpper ∈ m.name.toList) :
    a.isAlpha = true := by
  have hupper : ∀ b ∈ m.name.toList, b.isAlpha = true :=
    List.all_eq_true.mp (by cases m <;> decide)
  by_cases ha : a.isLower = true
  · change (a.isUpper || a.isLower) = true
    rw [ha, Bool.or_true]
  · have hlower : a.isLower = (decide (a.val ≥ 'a'.val) && decide (a.val ≤ 'z'.val)) := rfl
    rw [hlower] at ha
    have hsame : a.toUpper = a := dif_neg (by simpa [and_comm] using ha)
    rw [hsame] at h
    exact hupper a h

variable {m : Method} {verb : List Char}

theorem IsSpelled.isAlpha (h : m.IsSpelled verb) : ∀ a ∈ verb, a.isAlpha = true := by
  intro a ha
  apply isAlpha_of_toUpper (m := m)
  rw [← h]
  exact List.mem_map_of_mem ha

theorem ofAnyCase?_of_isSpelled (h : m.IsSpelled verb) :
    ofAnyCase? (String.ofList verb) = some m := by
  have hchar : ∀ a ∈ verb, Text.upperChar a = [a.toUpper] := by
    intro a ha
    have hn := Source.toNat_of_isNameChar (a := a)
      (by simp [Source.isNameChar, Source.isNameStart, h.isAlpha a ha])
    rw [Text.upperChar]
    exact if_pos (by omega)
  have hupper : verb.flatMap Text.upperChar = m.name.toList := by
    rw [← h, List.map_eq_flatMap]
    exact List.flatMap_congr hchar
  rw [ofAnyCase?, Text.upper, String.toList_ofList, hupper, String.ofList_toList, ofName?_name]

theorem isName_of_isSpelled (h : m.IsSpelled verb) : Source.isName verb = true := by
  have hstart : ∀ a ∈ verb, Source.isNameStart a = true :=
    fun a ha => by simp [Source.isNameStart, h.isAlpha a ha]
  cases verb with
  | nil => cases m <;> cases h
  | cons a verb =>
    rw [Source.isName, hstart a (by simp), Bool.true_and, List.all_eq_true]
    intro b hb
    rw [Source.isNameChar, hstart b (by simp [hb]), Bool.true_or]

end Method

namespace RouteText
open Source
open DocComment (commentText innerText isPrintable)
open RouteCalls (RouteCall)

/-- The characters that stand for themselves in a printed path. -/
def isPlain (a : Char) : Bool :=
  a.isAlphanum || a == '/' || a == ':' || a == '_' || a == '-'

/-- A character of a path and how it is written. -/
structure Letter where
  char : Char
  text : List Char
  spelled : isPlain char = true ∧ text = [char] ∨ Literal.Escapes char text

structure Name where
  text : List Char
  plain : PlainName text

/-- A route that is registered by a call, with the comment before it. -/
structure Item where
  doc? : Option DocFact
  object : Name
  method : Method
  verb : List Char
  path : List Letter
  handlers : List Name
  doc_printable : ∀ d ∈ doc?, isPrintable d = true
  doc_open : ∀ d ∈ doc?, ¬ ['*', '/'] <:+: innerText d
  verb_spelled : method.IsSpelled verb
  path_ne : path ≠ []

namespace Item

def lead (i : Item) : List Char := (i.doc?.map fun d => commentText d ++ ['\n']).getD []

def pathText (i : Item) : List Char := i.path.flatMap Letter.text

def statement (i : Item) : List Char :=
  i.object.text ++ ('.' :: i.verb ++ ("('".toList ++ (i.pathText ++ ("'".toList ++
    (i.handlers.flatMap (fun h => ", ".toList ++ h.text) ++ ");".toList)))))

def text (i : Item) : List Char := i.lead ++ (i.statement ++ ['\n'])

/-- The path that is meant. -/
def pathString (i : Item) : String := String.ofList (i.path.map Letter.char)

def handlerNames (i : Item) : List String := i.handlers.map fun h => String.ofList h.text

end Item

def text (items : List Item) : List Char := items.flatMap Item.text

/-- The byte offset of an item's call after some other items. -/
def offset (before : List Item) (i : Item) : Nat := Text.width (text before ++ i.lead)

/-- The comment of the last item that has one. -/
def nearest (items : List Item) : Option DocFact := (items.filterMap Item.doc?).getLast?

def descriptor (file : String) (before : List Item) (i : Item) : Descriptor :=
  match nearest (before ++ [i]) with
  | none =>
    { method := i.method
      path := i.pathString
      handlers := i.handlerNames
      position := offset before i
      file
      summary := i.method.name ++ " " ++ i.pathString
      responses := Endpoint.defaultResponses
      operationId := OperationId.make i.method.name i.pathString }
  | some d =>
    { method := i.method
      path := d.explicitPath.getD ""
      handlers := i.handlerNames
      position := offset before i
      file
      summary := d.summary
      description := d.description
      parameters := d.parameters.map
        (Endpoint.paramOf (Endpoint.placeholders (d.explicitPath.getD "")))
      responses := if d.responses.isEmpty then Endpoint.defaultResponses else d.responses
      tags := d.tags
      security := d.security
      operationId := OperationId.make i.method.name (d.explicitPath.getD "")
      documented := true }

section Parsing
variable {items : List Item}

def Item.entry (i : Item) : Entry where
  comment? := i.doc?.map innerText
  call := ⟨i.object.text, i.verb, .literal i.pathText, i.handlers.map fun h => .name h.text⟩

theorem Item.lead_entry (i : Item) : i.entry.lead = i.lead := by
  simp only [Entry.lead, Item.lead, Item.entry, Option.map_map]
  rfl

theorem Item.text_entry (i : Item) : i.entry.text = i.text := by
  have hmore : moreArguments (i.handlers.map fun h => Argument.name h.text) =
      i.handlers.flatMap fun h => ", ".toList ++ h.text := by
    simp [moreArguments, List.flatMap_map, Argument.text]
  have hcall : i.entry.call.text ++ [';'] = i.statement := by
    simp [Item.entry, Call.text, Call.inner, Argument.text, hmore, quoted, Item.statement]
  rw [Entry.text, Item.text, lead_entry, ← hcall]
  simp

theorem listing_entries (items : List Item) : listing (items.map Item.entry) = text items := by
  simp [listing, text, List.flatMap_map, Item.text_entry]

theorem isPlain_iff_ne {a b : Char} (ha : isPlain a = true) (hb : isPlain b = false) : a ≠ b := by
  rintro rfl
  rw [ha] at hb
  cases hb

theorem Letter.quotable {l : Letter} (hz : '\x00' ∉ l.text) :
    Quotable l.text ∧ l.text ≠ [] ∧ KeepsLine l.text := by
  rcases l.spelled with ⟨hp, ht⟩ | he
  · have hne (b : Char) (hb : isPlain b = false) := isPlain_iff_ne hp hb
    rw [ht]
    refine ⟨quotable_raw ?_, by simp, ?_⟩
    · simp [isInert, hne '\'' (by decide), hne '\\' (by decide), hne '\r' (by decide),
        hne '\n' (by decide), hne '\x00' (by decide)]
    · simpa [KeepsLine] using
        ⟨hne '\n' (by decide), hne '\u2028' (by decide), hne '\u2029' (by decide)⟩
  · refine ⟨quotable_of_escapes he hz, ?_⟩
    obtain ⟨e, ht⟩ := he.cons
    rw [ht]
    exact ⟨by simp, by simp [KeepsLine]⟩

theorem Letter.spelling (l : Letter) : Literal.Spelling l.char l.text := by
  rcases l.spelled with ⟨hp, ht⟩ | he
  · rw [ht]
    exact .raw (isPlain_iff_ne hp (by decide))
  · exact he.spelled

theorem decode_letters (path : List Letter) :
    Literal.decode (path.flatMap Letter.text) = .ok (path.map Letter.char) := by
  have hall : ∀ t ∈ path.map fun l => (l.char, l.text), Literal.Spelling t.1 t.2 := by
    simpa using fun l _ => l.spelling
  have h := Literal.decode_of_spelled hall
  simpa [List.flatMap_map, Function.comp_def] using h

theorem closes_letters {path : List Letter} (hz : '\x00' ∉ path.flatMap Letter.text) :
    Closes (path.flatMap Letter.text) := by
  have hl : ∀ t ∈ path.map Letter.text, Quotable t ∧ t ≠ [] ∧ KeepsLine t := by
    intro t ht
    obtain ⟨l, hl, rfl⟩ := List.mem_map.mp ht
    exact Letter.quotable fun h => hz (List.mem_flatMap.mpr ⟨l, hl, h⟩)
  intro s
  have hlen := (stringLength?_quotable hl s).2
  rwa [← List.flatMap_def] at hlen

theorem Item.valid_entry (i : Item) (hz : '\x00' ∉ i.text) : i.entry.Valid := by
  have hpath : '\x00' ∉ i.pathText := by
    intro h
    apply hz
    simp [Item.text, Item.statement, h]
  have hdoc : ∀ d ∈ i.doc?, '\x00' ∉ innerText d := by
    intro d hd h
    have hd' : i.doc? = some d := hd
    apply hz
    simp [Item.text, Item.lead, hd', commentText, h]
  refine ⟨?_, ?_, i.object.plain, Method.isName_of_isSpelled i.verb_spelled,
    closes_letters hpath, ?_⟩
  · intro inner h
    obtain ⟨d, hd, rfl⟩ := Option.map_eq_some_iff.mp h
    exact i.doc_open d hd
  · intro inner h
    obtain ⟨d, hd, rfl⟩ := Option.map_eq_some_iff.mp h
    exact hdoc d hd
  · intro x hx
    obtain ⟨h, -, rfl⟩ := List.mem_map.mp hx
    exact h.plain

theorem parse_text (hz : '\x00' ∉ text items) (file : String) :
    Extraction.parse (Text.encode (text items)) file =
      .ok (.group (parts (placed 0 (items.map Item.entry)))) := by
  have hvalid : ∀ e ∈ items.map Item.entry, e.Valid := by
    intro e he
    obtain ⟨i, hi, rfl⟩ := List.mem_map.mp he
    exact i.valid_entry fun h => hz (List.mem_flatMap.mpr ⟨i, hi, h⟩)
  rw [Extraction.parse, ← listing_entries, parse?_listing hvalid]

end Parsing

section Finding
variable {items : List Item}

def spots (pos : Nat) : List Item → List (Nat × Item)
  | [] => []
  | i :: items => (pos, i) :: spots (pos + Text.width i.text) items

theorem map_snd_spots (pos : Nat) (items : List Item) : (spots pos items).map Prod.snd = items := by
  induction items generalizing pos with
  | nil => rfl
  | cons i items ih => rw [spots, List.map_cons, ih]

theorem length_spots (pos : Nat) (items : List Item) : (spots pos items).length = items.length := by
  rw [← List.length_map Prod.snd, map_snd_spots]

theorem placed_entries (pos : Nat) (items : List Item) :
    placed pos (items.map Item.entry) = (spots pos items).map fun p => (p.1, p.2.entry) := by
  induction items generalizing pos with
  | nil => rfl
  | cons i items ih => rw [List.map_cons, placed, spots, List.map_cons, Item.text_entry, ih]

theorem spots_append (pos : Nat) (before after : List Item) :
    spots pos (before ++ after) =
      spots pos before ++ spots (pos + Text.width (text before)) after := by
  induction before generalizing pos with
  | nil => rfl
  | cons i before ih =>
    have htext : text (i :: before) = i.text ++ text before := List.flatMap_cons
    rw [List.cons_append, spots, ih, spots, htext, Text.width_append, Nat.add_assoc,
      List.cons_append]

def callStart (p : Nat × Item) : Nat := p.1 + Text.width p.2.lead

/-- The route of an item at its place. -/
def routeAt (file : String) (p : Nat × Item) : RouteFact :=
  { method := p.2.method
    path := p.2.pathString
    handlers := p.2.handlerNames
    position := callStart p
    file }

def docAt? (p : Nat × Item) : Option DocFact :=
  p.2.doc?.map fun d => { d with endPosition := p.1 + Text.width (commentText d) }

def treeAt (p : Nat × Item) : Tree := p.2.entry.call.tree (callStart p)

theorem argumentTrees_names (pos : Nat) (names : List Name) :
    argumentTrees pos (names.map fun h => .name h.text) =
      names.map fun h => .identifier (String.ofList h.text) := by
  induction names generalizing pos with
  | nil => rfl
  | cons h names ih => rw [List.map_cons, argumentTrees, ih, List.map_cons]; rfl

def nameStart (p : Nat × Item) : Nat := callStart p + Text.width p.2.object.text + 1

def argumentsAt (p : Nat × Item) : List Tree :=
  .string (nameStart p + Text.width p.2.verb + 1) (String.ofList p.2.pathText) ::
    p.2.handlers.map fun h => .identifier (String.ofList h.text)

theorem treeAt_eq (p : Nat × Item) : treeAt p =
    .call (callStart p) (.member (.identifier (String.ofList p.2.object.text)) (nameStart p)
      (String.ofList p.2.verb)) (argumentsAt p) := by
  rw [treeAt, Call.tree, Item.entry, argumentsAt, argumentTrees, argumentTrees_names]
  rfl

theorem identifier?_names (names : List Name) :
    (names.map fun h => Tree.identifier (String.ofList h.text)).filterMap RouteCalls.identifier? =
      names.map fun h => String.ofList h.text := by
  rw [List.filterMap_map, ← List.filterMap_eq_map]
  rfl

/-- A call with a path and names as arguments registers a route, whatever it is called on. -/
theorem routeCall_letters (file : String) {method : Method} {verb : List Char}
    (hverb : method.IsSpelled verb) {path : List Letter} (hpath : path ≠ []) (names : List Name)
    (object : Tree) (start nameStart place : Nat) :
    RouteCall file (.call start (.member object nameStart (String.ofList verb))
      (.string place (String.ofList (path.flatMap Letter.text)) ::
        names.map fun h => .identifier (String.ofList h.text))) nameStart
      { method, path := String.ofList (path.map Letter.char),
        handlers := names.map fun h => String.ofList h.text, position := start, file } := by
  have hname := Method.ofAnyCase?_eq_some_iff.mp (Method.ofAnyCase?_of_isSpelled hverb)
  have hdecode := decode_letters path
  rw [← String.toList_ofList (l := path.flatMap Letter.text)] at hdecode
  rw [← identifier?_names]
  exact .mk (.mk object _ _ hname (.mk [] _ (by simp) (.string place _))) hdecode
    (by simpa using hpath)

theorem route?_treeAt (file : String) (p : Nat × Item) :
    RouteCalls.route? file (treeAt p) = .ok (some (nameStart p, routeAt file p)) := by
  rw [treeAt_eq]
  exact (routeCall_letters file p.2.verb_spelled p.2.path_ne p.2.handlers _ _ _ _).route?_eq

def callNodes (p : Nat × Item) : List Tree :=
  treeAt p :: .member (.identifier (String.ofList p.2.object.text)) (nameStart p)
    (String.ofList p.2.verb) :: .identifier (String.ofList p.2.object.text) :: argumentsAt p

theorem children_argumentsAt (p : Nat × Item) : ∀ t ∈ argumentsAt p, t.children = [] := by
  intro t ht
  rcases List.mem_cons.mp ht with rfl | ht
  · rfl
  · obtain ⟨h, -, rfl⟩ := List.mem_map.mp ht
    rfl

theorem nodes_treeAt (p : Nat × Item) : (treeAt p).nodes = callNodes p := by
  have hobject : (Tree.identifier (String.ofList p.2.object.text)).nodes = [_] :=
    Tree.nodes_leaf rfl
  rw [treeAt_eq, Tree.nodes_eq, Tree.children, List.flatMap_cons, Tree.nodes_eq (.member _ _ _),
    Tree.children, List.flatMap_singleton, hobject, Tree.flatMap_leaves (children_argumentsAt p),
    callNodes, treeAt_eq]
  rfl

def notesAt (ps : List (Nat × Item)) : List Tree := ps.filterMap fun p => p.2.entry.note? p.1

theorem mem_notesAt {ps : List (Nat × Item)} {t : Tree} (h : t ∈ notesAt ps) :
    ∃ stop text, t = .comment stop text := by
  obtain ⟨p, -, hp⟩ := List.mem_filterMap.mp h
  obtain ⟨inner, -, rfl⟩ := Option.map_eq_some_iff.mp hp
  exact ⟨_, _, rfl⟩

theorem parts_entries (pos : Nat) (items : List Item) :
    parts (placed pos (items.map Item.entry)) =
      notesAt (spots pos items) ++ (spots pos items).map treeAt := by
  have htree (p : Nat × Item) : p.2.entry.call.tree (p.2.entry.start p.1) = treeAt p := by
    rw [treeAt, callStart, Entry.start, Item.lead_entry]
  rw [placed_entries, parts, List.filterMap_map, List.map_map, notesAt]
  simp only [Function.comp_def, htree]

theorem nodes_entries (ps : List (Nat × Item)) :
    (Tree.group (notesAt ps ++ ps.map treeAt)).nodes =
      .group (notesAt ps ++ ps.map treeAt) :: (notesAt ps ++ ps.flatMap callNodes) := by
  have hleaf : ∀ t ∈ notesAt ps, t.children = [] := by
    intro t ht
    obtain ⟨stop, text, rfl⟩ := mem_notesAt ht
    rfl
  rw [Tree.nodes_eq, Tree.children, List.flatMap_append, Tree.flatMap_leaves hleaf,
    List.flatMap_map]
  simp only [nodes_treeAt]

theorem registers_calls (file : String) (ps : List (Nat × Item)) :
    RouteCalls.Registers file (ps.flatMap callNodes)
      (ps.map fun p => (nameStart p, routeAt file p)) := by
  induction ps with
  | nil => exact RouteCalls.registers_nothing (by simp)
  | cons p ps ih =>
    have hcall : RouteCalls.Registers file [treeAt p] [(nameStart p, routeAt file p)] :=
      RouteCalls.registers_one (route?_treeAt file p)
    have hinside : RouteCalls.Registers file (callNodes p).tail [] := by
      apply RouteCalls.registers_nothing
      simp only [callNodes, List.tail_cons, argumentsAt, List.forall_mem_cons, List.forall_mem_map]
      exact ⟨rfl, rfl, rfl, fun _ _ => rfl⟩
    exact (hcall.append hinside).append ih

theorem registers_nodes (file : String) (ps : List (Nat × Item)) :
    RouteCalls.Registers file (Tree.group (notesAt ps ++ ps.map treeAt)).nodes
      (ps.map fun p => (nameStart p, routeAt file p)) := by
  have hnotes : RouteCalls.Registers file
      (.group (notesAt ps ++ ps.map treeAt) :: notesAt ps) [] := by
    apply RouteCalls.registers_nothing
    rw [List.forall_mem_cons]
    refine ⟨rfl, fun t ht => ?_⟩
    obtain ⟨stop, text, rfl⟩ := mem_notesAt ht
    rfl
  rw [nodes_entries]
  exact hnotes.append (registers_calls file ps)

theorem spots_le {pos : Nat} {p : Nat × Item} (h : p ∈ spots pos items) : pos ≤ p.1 := by
  induction items generalizing pos with
  | nil => cases h
  | cons i items ih =>
    rcases List.mem_cons.mp h with rfl | h
    · exact Nat.le_refl pos
    · exact Nat.le_trans (Nat.le_add_right _ _) (ih h)

theorem pairwise_spots (pos : Nat) (items : List Item) :
    (spots pos items).Pairwise fun p q => p.1 + Text.width p.2.text ≤ q.1 := by
  induction items generalizing pos with
  | nil => exact .nil
  | cons i items ih => exact .cons (fun q hq => spots_le hq) (ih _)

theorem nameStart_lt (p : Nat × Item) : nameStart p < p.1 + Text.width p.2.text := by
  have hdot : '.'.utf8Size = 1 := rfl
  have hline : '\n'.utf8Size = 1 := rfl
  simp only [nameStart, callStart, Item.text, Item.statement, Text.width_append, Text.width_cons,
    List.cons_append]
  omega

theorem callStart_lt (p : Nat × Item) : callStart p < p.1 + Text.width p.2.text :=
  Nat.lt_of_le_of_lt (by simp [nameStart, Nat.add_assoc]) (nameStart_lt p)

theorem find_text (file : String) (pos : Nat) (items : List Item) :
    RouteCalls.find file (.group (parts (placed pos (items.map Item.entry)))) =
      .ok ((spots pos items).map (routeAt file)) := by
  have hsorted : ((spots pos items).map fun p => (nameStart p, routeAt file p)).Pairwise
      fun a b => a.1 ≤ b.1 := by
    rw [List.pairwise_map]
    refine (pairwise_spots pos items).imp fun {p q} hpq => ?_
    have hp := nameStart_lt p
    simp only [nameStart, callStart] at hp ⊢
    omega
  rw [parts_entries, RouteCalls.find_of_registers (registers_nodes file _) hsorted, List.map_map]
  rfl

end Finding

section Documenting

theorem doc?_note (p : Nat × Item) :
    (p.2.entry.note? p.1).bind RouteCalls.doc? = docAt? p := by
  cases hd : p.2.doc? with
  | none => simp [Entry.note?, Item.entry, docAt?, hd]
  | some d =>
    have hp := DocComment.printable_of (p.2.doc_printable d hd)
    have hblock : block (innerText d) = commentText d := rfl
    have hopen : ['/', '*'] <+: commentText d := List.prefix_append _ _
    have hparse (stop : Int) : DocComment.parse? (String.ofList (commentText d)) stop =
        some { d with endPosition := stop } := by
      rw [DocComment.parse?, DocComment.foldl_lines hp, DocComment.addLines_tagLines hp,
        DocComment.toFact?_draftOf hp]
    simp [Entry.note?, Item.entry, docAt?, hd, hblock, RouteCalls.doc?, hopen, hparse]

theorem doc?_callNodes (p : Nat × Item) : ∀ t ∈ callNodes p, RouteCalls.doc? t = none := by
  simp only [callNodes, treeAt_eq, argumentsAt, List.forall_mem_cons, List.forall_mem_map]
  exact ⟨rfl, rfl, rfl, rfl, fun _ _ => rfl⟩

theorem docs_text (pos : Nat) (items : List Item) :
    RouteCalls.docs (.group (parts (placed pos (items.map Item.entry)))) =
      (spots pos items).filterMap docAt? := by
  have hcalls : ((spots pos items).flatMap callNodes).filterMap RouteCalls.doc? = [] := by
    rw [List.filterMap_eq_nil_iff]
    intro t ht
    obtain ⟨p, -, ht⟩ := List.mem_flatMap.mp ht
    exact doc?_callNodes p t ht
  rw [parts_entries, RouteCalls.docs, nodes_entries, List.filterMap_cons, List.filterMap_append,
    hcalls, List.append_nil, notesAt, List.filterMap_filterMap]
  simp only [doc?_note]
  rfl

theorem endPosition_docAt {p : Nat × Item} {d : DocFact} (h : docAt? p = some d) :
    (p.1 : Int) ≤ d.endPosition ∧ d.endPosition < callStart p := by
  obtain ⟨e, he, rfl⟩ := Option.map_eq_some_iff.mp h
  have hline : '\n'.utf8Size = 1 := rfl
  simp only [callStart, Item.lead, he, Option.map_some, Option.getD_some, Text.width_append,
    Text.width_cons]
  omega

theorem pairwise_docs (pos : Nat) (items : List Item) :
    ((spots pos items).filterMap docAt?).Pairwise fun d e => d.endPosition ≤ e.endPosition := by
  rw [List.pairwise_filterMap]
  refine (pairwise_spots pos items).imp fun {p q} hpq d hd e he => ?_
  have hend := (endPosition_docAt hd).2
  have hstart := (endPosition_docAt he).1
  have hcall := callStart_lt p
  omega

/-- A comment without its place. -/
def forget (d : DocFact) : DocFact := { d with endPosition := 0 }

theorem map_forget_docs (pos : Nat) (items : List Item) :
    ((spots pos items).filterMap docAt?).map forget = (items.filterMap Item.doc?).map forget := by
  have hdoc (p : Nat × Item) : (docAt? p).map forget = p.2.doc?.map forget := by
    rw [docAt?, Option.map_map]
    rfl
  conv_rhs => rw [← map_snd_spots pos items]
  simp only [List.filterMap_map, List.map_filterMap, Function.comp_def, hdoc]

theorem draft_forget (route : RouteFact) (doc : Option DocFact) :
    Endpoint.draft route (doc.map forget) = Endpoint.draft route doc := by
  cases doc <;> rfl

/-- The comment that is found for an item is the nearest one. -/
theorem lookup_docs (before : List Item) (i : Item) (after : List Item) :
    (Pairing.lookup (Pairing.byEnd ((spots 0 (before ++ i :: after)).filterMap docAt?))
      (offset before i)).map forget = (nearest (before ++ [i])).map forget := by
  let place := (Text.width (text before), i)
  have hupTo : spots 0 (before ++ [i]) = spots 0 before ++ [place] := by
    rw [spots_append, Nat.zero_add]
    rfl
  have hall : spots 0 (before ++ i :: after) =
      spots 0 (before ++ [i]) ++ spots (place.1 + Text.width i.text) after := by
    rw [hupTo, spots_append, Nat.zero_add, List.append_assoc]
    rfl
  have hplaces := pairwise_spots 0 (before ++ [i])
  rw [hupTo, List.pairwise_append] at hplaces
  have hoffset : offset before i = callStart place := Text.width_append _ _
  have hcall : callStart place < place.1 + Text.width i.text := callStart_lt place
  have hlookup : Pairing.lookup
      (Pairing.byEnd ((spots 0 (before ++ i :: after)).filterMap docAt?)) (offset before i) =
        ((spots 0 (before ++ [i])).filterMap docAt?).getLast? := by
    rw [Pairing.byEnd_of_pairwise (pairwise_docs 0 _), hall, List.filterMap_append, hoffset]
    -- The comments up to the item's own end before its call; the others start after the item.
    apply Pairing.lookup_append
    · intro d hd
      obtain ⟨p, hp, hd⟩ := List.mem_filterMap.mp hd
      have hend := (endPosition_docAt hd).2
      rw [hupTo, List.mem_append, List.mem_singleton] at hp
      rcases hp with hp | rfl
      · have hbefore := hplaces.2.2 p hp place (by simp)
        have hlt := callStart_lt p
        have hle : place.1 ≤ callStart place := Nat.le_add_right _ _
        omega
      · exact hend
    · intro d hd
      obtain ⟨p, hp, hd⟩ := List.mem_filterMap.mp hd
      have hstart := (endPosition_docAt hd).1
      have hafter := spots_le hp
      omega
  rw [hlookup, ← List.getLast?_map, map_forget_docs, List.getLast?_map, nearest]

theorem draft_nearest (file : String) (before : List Item) (i : Item) :
    Endpoint.draft (routeAt file (Text.width (text before), i)) (nearest (before ++ [i])) =
      descriptor file before i := by
  have hoffset : offset before i = callStart (Text.width (text before), i) := Text.width_append _ _
  cases hn : nearest (before ++ [i]) with
  | none => simp [Endpoint.draft, Endpoint.pathOf, descriptor, hn, routeAt, hoffset]
  | some d =>
    -- A comment that was printed has a summary and a path, so nothing is taken from the route.
    obtain ⟨j, -, hj⟩ := List.mem_filterMap.mp (List.mem_of_getLast? hn)
    have hp := DocComment.printable_of (j.doc_printable d hj)
    obtain ⟨path, hpath, hslash⟩ := hp.path
    have hne : path ≠ "" := by
      rintro rfl
      cases hslash
    simp [Endpoint.draft, Endpoint.pathOf, descriptor, hn, routeAt, hoffset, hp.summary_ne, hpath,
      hne]

end Documenting

/-- What is found in a text of items is one route for each item, with the nearest comment. -/
theorem printed_routes_are_extracted (file : String) (items : List Item)
    (hz : '\x00' ∉ text items) :
    ∃ ds, Extraction.fromSource (Text.encode (text items)) file = .ok ds ∧
      ds.length = items.length ∧
      ∀ before i after, items = before ++ i :: after →
        ds[before.length]? = some (descriptor file before i) := by
  have hsource := Extraction.fromSource_of_find (parse_text hz file) (find_text file 0 items)
  rw [docs_text, Pairing.pair, List.map_map, List.map_map] at hsource
  refine ⟨_, hsource, by simp [length_spots], ?_⟩
  rintro before i after rfl
  have hspot : (spots 0 (before ++ i :: after))[before.length]? =
      some (Text.width (text before), i) := by
    rw [spots_append, List.getElem?_append_right (by rw [length_spots]), length_spots, Nat.sub_self,
      Nat.zero_add]
    rfl
  have hoffset : offset before i = callStart (Text.width (text before), i) := Text.width_append _ _
  rw [List.getElem?_map, hspot, Option.map_some, ← draft_nearest, ← draft_forget _ (nearest _),
    ← lookup_docs before i after, draft_forget, hoffset]
  rfl

/-- A letter that stands for itself. -/
def plainLetter (a : Char) (h : isPlain a = true) : Letter := ⟨a, [a], .inl ⟨h, rfl⟩⟩

def plainName (name : String) (h : isName name.toList = true ∧ name ∉ leadingWords) : Name :=
  ⟨name.toList, h.1, by simpa using h.2⟩

/-- A route without a comment, in whose path `/éé'😀😀` there is one escape of each kind. -/
def bare : Item where
  doc? := none
  object := plainName "r" (by decide)
  method := .delete
  verb := "delete".toList
  path :=
    [plainLetter '/' (by decide),
     ⟨'é', "\\xE9".toList,
      .inr ⟨.number (.two 'E' '9' ⟨0, by decide⟩), rfl, by decide⟩⟩,
     ⟨'é', "\\u00e9".toList,
      .inr ⟨.number (.four '0' '0' 'e' '9' ⟨2, by decide⟩), rfl, by decide⟩⟩,
     ⟨'\'', "\\'".toList, .inr ⟨.same (by decide), rfl, by decide⟩⟩,
     ⟨'😀', "\\u\x7b1F600\x7d".toList,
      .inr ⟨.number (.braced "1F600".toList ⟨0, by decide⟩), rfl, by decide⟩⟩,
     ⟨'😀', "\\uD83D\\uDE00".toList,
      .inr ⟨.pair 0 (⟨rfl, rfl, rfl⟩ : Literal.IsPair 0xD83D 0xDE00 '😀')
        (.four 'D' '8' '3' 'D' ⟨0, by decide⟩) (.four 'D' 'E' '0' '0' ⟨0, by decide⟩),
        rfl, by decide⟩⟩]
  handlers := []
  doc_printable := by simp
  doc_open := by simp
  verb_spelled := by decide
  path_ne := by decide

/-- A route whose comment has a character of two bytes. -/
def documented : Item where
  doc? := some { summary := "ä * /", explicitPath := some "/:a/*", endPosition := 0 }
  object := plainName "$app" (by decide)
  method := .get
  verb := "GeT".toList
  path := [plainLetter '-' (by decide)]
  handlers := [plainName "of" (by decide), plainName "h1" (by decide)]
  doc_printable := by decide +kernel
  doc_open := by decide +kernel
  verb_spelled := by decide
  path_ne := by decide

/-- The last route shares the comment of the one before it. -/
theorem printed_routes_are_extracted_sharing :
    '\x00' ∉ text [bare, documented, bare] ∧
    ∃ ds, Extraction.fromSource (Text.encode (text [bare, documented, bare])) "a.ts" = .ok ds ∧
      ds.map (·.path) = ["/éé'😀😀", "/:a/*", "/:a/*"] ∧
      ds.map (·.handlers) = [[], ["of", "h1"], []] ∧
      ds.map (·.position) = [0, 95, 118] := by
  have hz : '\x00' ∉ text [bare, documented, bare] := by decide +kernel
  obtain ⟨ds, hds, hlen, hat⟩ := printed_routes_are_extracted "a.ts" [bare, documented, bare] hz
  obtain ⟨d₀, d₁, d₂, rfl⟩ := List.length_eq_three.mp hlen
  have h₀ : d₀ = _ := Option.some.inj (hat [] bare [documented, bare] rfl)
  have h₁ : d₁ = _ := Option.some.inj (hat [bare] documented [bare] rfl)
  have h₂ : d₂ = _ := Option.some.inj (hat [bare, documented] bare [] rfl)
  refine ⟨hz, _, hds, ?_⟩
  rw [h₀, h₁, h₂]
  decide +kernel

/-- A comment with the character of number zero. -/
def spoiled : List Item :=
  [{ doc? := some { summary := "x\x00y", explicitPath := some "/a", endPosition := 0 }
     object := plainName "a" (by decide)
     method := .get
     verb := "get".toList
     path := [plainLetter '/' (by decide), plainLetter 'a' (by decide)]
     handlers := []
     doc_printable := by decide +kernel
     doc_open := by decide +kernel
     verb_spelled := by decide
     path_ne := by decide }]

/-- A text with this character cannot be parsed, and its route is lost. -/
theorem zero_character_is_not_parsed :
    Extraction.fromSource (Text.encode (text spoiled)) "a.js" = .error .notParsed := by
  decide +kernel

end RouteText

end RouteBook
