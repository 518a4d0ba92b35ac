import RouteBook.Proofs.Source.Chain

/-! Texts of calls, each on a line of its own and perhaps after a comment. Main statement: what such
a text is parsed into. -/
namespace RouteBook.Source
variable {s ws : List Char} {pos : Nat}

structure Entry where
  comment? : Option (List Char)
  call : Call

namespace Entry

structure Valid (e : Entry) : Prop where
  unclosed : ∀ inner ∈ e.comment?, ¬ ['*', '/'] <:+: inner
  nonzero : ∀ inner ∈ e.comment?, '\x00' ∉ inner
  call : e.call.Valid

def lead (e : Entry) : List Char := (e.comment?.map fun inner => block inner ++ ['\n']).getD []

def text (e : Entry) : List Char := e.lead ++ (e.call.text ++ [';', '\n'])

def start (e : Entry) (pos : Nat) : Nat := pos + Text.width e.lead

def note? (pos : Nat) (e : Entry) : Option Tree :=
  e.comment?.map fun inner =>
    .comment (pos + Text.width (block inner)) (String.ofList (block inner))

end Entry

def placed (pos : Nat) : List Entry → List (Nat × Entry)
  | [] => []
  | e :: es => (pos, e) :: placed (pos + Text.width e.text) es

def listing (es : List Entry) : List Char := es.flatMap Entry.text

def Cursor.keeping (c : Cursor) (ps : List (Nat × Entry)) : Cursor :=
  { c with comments := (ps.filterMap fun p => p.2.note? p.1).reverse ++ c.comments }

theorem Entry.Valid.skipExtras {e : Entry} (he : e.Valid) (c : Cursor) (hw : Gap ws) (s : List Char)
    (pos : Nat) :
    (c.on (ws ++ (e.text ++ s)) pos).skipExtras =
      (c.keeping [(pos + Text.width ws, e)]).on (e.call.text ++ ';' :: '\n' :: s)
        (e.start (pos + Text.width ws)) := by
  have hsolid : Solid (e.call.text ++ ';' :: '\n' :: s) := by
    rw [Call.text_append]
    exact (he.call.object.fresh _).1
  cases hc : e.comment? with
  | none =>
    have htext : e.text ++ s = e.call.text ++ ';' :: '\n' :: s := by
      simp [Entry.text, Entry.lead, hc]
    rw [htext, skipExtras_solid c hw hsolid]
    simp [Cursor.keeping, Entry.note?, hc, Entry.start, Entry.lead]
  | some inner =>
    have htext : e.text ++ s = block inner ++ (['\n'] ++ (e.call.text ++ ';' :: '\n' :: s)) := by
      simp [Entry.text, Entry.lead, hc]
    have hline : Gap ['\n'] := gap_cons (by decide)
    rw [htext, skipExtras_block c hw (he.unclosed inner hc) (he.nonzero inner hc) hline hsolid]
    simp [Cursor.keeping, Entry.note?, hc, Entry.start, Entry.lead, Cursor.noting, Nat.add_assoc]

theorem fresh_nil : Fresh [] := by simp [Fresh, Solid]

theorem operandRule_nil (self : Grammar) (last : Bool) (c : Cursor) (pos : Nat) :
    operandRule self last (c.on [] pos) = none := by
  have hword : wordAt (Text.ofChars []) = "" := wordAt_mark (by simp [EndsWord])
  have hlead : leadSigns.find? (startsWith (Text.ofChars []) ·) = none := by decide
  have hno : ∀ token ∈ ["(", "<", "\x7b", "[", "'", "\"", "`", "/", "#", "@"],
      startsWith (Text.ofChars []) token = false := by decide
  simp only [List.forall_mem_cons, List.not_mem_nil, IsEmpty.forall_iff] at hno
  have hnumber : numberLength (Text.ofChars []) = 0 := by decide
  simp [operandRule, tokenStart_self c fresh_nil, hlead, hword, leadWords, head, mayBeArrow, hno,
    unitOf, number, hnumber]

theorem statement_nil {c d : Cursor} (h : c.skipExtras = d.on [] pos) (depth : Nat) :
    grammar (depth + 5) .statement c = none := by
  have hword : wordAt (Text.ofChars []) = "" := wordAt_mark (by simp [EndsWord])
  have hno : ∀ token ∈ ["\x7b", ";", "@"], startsWith (Text.ofChars []) token = false := by decide
  simp only [List.forall_mem_cons, List.not_mem_nil, IsEmpty.forall_iff] at hno
  have hoperand : grammar (depth + 4) (.expression true) (d.on [] pos) = none := by
    change expressionRule (grammar (depth + 3)) true (d.on [] pos) = none
    have hnone : grammar (depth + 3) (.operand true) (d.on [] pos) = none :=
      operandRule_nil _ _ d pos
    simp [expressionRule, hnone]
  change statementRule (grammar (depth + 4)) c = _
  simp [statementRule, tokenStart_of_fresh h fresh_nil, hword, hno, expressionStatement,
    expressions, hoperand]

theorem keeping_cons (c : Cursor) (p : Nat × Entry) (ps : List (Nat × Entry)) :
    (c.keeping [p]).keeping ps = c.keeping (p :: ps) := by
  simp only [Cursor.keeping, List.filterMap_cons, List.filterMap_nil]
  cases p.2.note? p.1 <;> simp

theorem manyUpTo_listing {es : List Entry} (h : ∀ e ∈ es, e.Valid) (c : Cursor) (hw : Gap ws)
    (depth fuel pos : Nat) (hf : es.length ≤ fuel) :
    ∃ tail stop, Gap tail ∧
      manyUpTo (grammar (depth + 5) .statement) fuel (c.on (ws ++ listing es) pos) =
        some ((placed (pos + Text.width ws) es).map (fun p => p.2.call.tree (p.2.start p.1)),
          (c.keeping (placed (pos + Text.width ws) es)).on tail stop) := by
  -- The line end of an entry is left over as the white space before the next one.
  induction es generalizing c ws fuel pos with
  | nil =>
    have hend := statement_nil (skipExtras_solid c hw solid_nil pos) depth
    exact ⟨ws, pos, hw, by simpa [placed, listing, Cursor.keeping] using manyUpTo_none hend fuel⟩
  | cons e es ih =>
    obtain ⟨n, rfl⟩ : ∃ n, fuel = n + 1 := ⟨fuel - 1, by simp at hf; omega⟩
    have he := h e (by simp)
    have hstatement := Call.statement_call he.call (he.skipExtras c hw (listing es) pos) depth
    have hline : Gap ['\n'] := gap_cons (by decide)
    obtain ⟨tail, stop, htail, hmore⟩ := ih (fun x hx => h x (by simp [hx]))
      (c.keeping [(pos + Text.width ws, e)]) hline n
      (e.start (pos + Text.width ws) + Text.width e.call.text + 1) (by simp at hf; omega)
    have hplace : e.start (pos + Text.width ws) + Text.width e.call.text + 1 + Text.width ['\n'] =
        pos + Text.width ws + Text.width e.text := by
      have htwo : Text.width [';', '\n'] = 2 := rfl
      have hone : Text.width ['\n'] = 1 := rfl
      rw [Entry.start, Entry.text, Text.width_append, Text.width_append e.call.text, htwo, hone]
      omega
    rw [hplace] at hmore
    have hlisting : listing (e :: es) = e.text ++ listing es := List.flatMap_cons
    refine ⟨tail, stop, htail, ?_⟩
    rw [hlisting, manyUpTo_some hstatement]
    rw [List.cons_append, List.nil_append] at hmore
    rw [hmore, keeping_cons]
    rfl

theorem length_le_listing (es : List Entry) : es.length ≤ (listing es).length := by
  induction es with
  | nil => exact Nat.zero_le _
  | cons e es ih =>
    simp only [listing, List.flatMap_cons, List.length_append, List.length_cons, Entry.text] at ih ⊢
    omega

theorem interpreterLine_listing {es : List Entry} (h : ∀ e ∈ es, e.Valid) (c : Cursor) (pos : Nat) :
    interpreterLine (c.on (listing es) pos) = some ((), c.on (listing es) pos) := by
  have hno : startsWith (c.on (listing es) pos).skipExtras.rest "#!" = false := by
    cases es with
    | nil =>
      have hskip : (c.on (listing []) pos).skipExtras = c.on [] pos :=
        skipExtras_self c solid_nil pos
      rw [hskip]
      rfl
    | cons e es =>
      have he := h e (by simp)
      have hskip := he.skipExtras c gap_nil (listing es) pos
      rw [List.nil_append] at hskip
      rw [listing, List.flatMap_cons, ← listing, hskip, Cursor.rest_on, Call.text_append]
      exact he.call.object.not_startsWith (by decide) _
  simp [interpreterLine, hno]

/-- The parts of a listing's tree: first the comments, then the calls. -/
def parts (ps : List (Nat × Entry)) : List Tree :=
  ps.filterMap (fun p => p.2.note? p.1) ++ ps.map fun p => p.2.call.tree (p.2.start p.1)

/-- The cursor that a dialect starts with, without its text. -/
def opening (dialect : Dialect) : Cursor := { rest := [], markup := dialect = .tsx }

/-- A text that is read up to white space is parsed into its comments and statements. -/
theorem parse?_of_statements {text tail : List Char} {ts : List Tree} {d : Cursor} {stop : Nat}
    (dialect : Dialect)
    (hline : interpreterLine ((opening dialect).on text 0) = some ((), (opening dialect).on text 0))
    (hmany : manyUpTo (grammar (8 * text.length + 20) .statement) (text.length + 1)
      ((opening dialect).on text 0) = some (ts, d.on tail stop)) (htail : Gap tail) :
    parse? dialect (Text.encode text) = some (.group (d.comments.reverse ++ ts)) := by
  have hlength : (Text.ofChars text).length = text.length := List.length_map _
  have hend : tokenStart (d.on tail stop) =
      some (stop + Text.width tail, d.on [] (stop + Text.width tail)) := by
    have hstart := tokenStart_on d htail fresh_nil stop
    rwa [List.append_nil] at hstart
  have hprogram : program (8 * text.length + 20) ((opening dialect).on text 0) =
      some (.group (d.comments.reverse ++ ts), d.on [] (stop + Text.width tail)) := by
    simp only [program, bind_apply, hline, Option.bind_some, many, get_apply, Cursor.rest_on,
      hlength, hmany, discard_apply, hend, Option.map_some]
    rfl
  rw [parse?, Text.pieces_encode]
  change (program (8 * (Text.ofChars text).length + 20) ((opening dialect).on text 0)).map
    Prod.fst = _
  rw [hlength, hprogram]
  rfl

theorem parse?_listing {es : List Entry} (h : ∀ e ∈ es, e.Valid) (dialect : Dialect) :
    parse? dialect (Text.encode (listing es)) = some (.group (parts (placed 0 es))) := by
  have hfuel : es.length ≤ (listing es).length + 1 := Nat.le_succ_of_le (length_le_listing es)
  obtain ⟨tail, stop, htail, hmany⟩ := manyUpTo_listing h (opening dialect) gap_nil
    (8 * (listing es).length + 15) _ 0 hfuel
  rw [List.nil_append, Text.width_nil, Nat.add_zero] at hmany
  rw [parse?_of_statements dialect (interpreterLine_listing h _ 0) hmany htail]
  simp [parts, Cursor.keeping, opening]

theorem parse?_chain {w : List Char} {ms : List MemberCall} (hg : Gap ws) (hw : PlainName w)
    (hms : ∀ m ∈ ms, m.Valid) (dialect : Dialect) :
    parse? dialect (Text.encode (ws ++ (w ++ (chainText ms ++ [';'])))) =
      some (.group [chain (Text.width ws) (.identifier (String.ofList w))
        (links (Text.width ws + Text.width w) ms)]) := by
  have hskip : ((opening dialect).on (ws ++ (w ++ (chainText ms ++ [';']))) 0).skipExtras =
      (opening dialect).on (w ++ (chainText ms ++ [';'])) (Text.width ws) := by
    rw [skipExtras_solid _ hg (hw.fresh _).1, Nat.zero_add]
  have hline : interpreterLine ((opening dialect).on (ws ++ (w ++ (chainText ms ++ [';']))) 0) =
      some ((), (opening dialect).on (ws ++ (w ++ (chainText ms ++ [';']))) 0) := by
    have hno : startsWith (Text.ofChars (w ++ (chainText ms ++ [';']))) "#!" = false :=
      hw.not_startsWith (by decide) _
    simp [interpreterLine, hskip, hno]
  have hmany (depth fuel : Nat) : manyUpTo (grammar (depth + 5) .statement) (fuel + 1)
      ((opening dialect).on (ws ++ (w ++ (chainText ms ++ [';']))) 0) =
      some ([chain (Text.width ws) (.identifier (String.ofList w))
        (links (Text.width ws + Text.width w) ms)],
        (opening dialect).on [] (Text.width ws + Text.width (w ++ chainText ms) + 1)) := by
    rw [manyUpTo_some (statement_chain hw hms hskip depth),
      manyUpTo_none (statement_nil (skipExtras_self _ solid_nil _) depth)]
    rfl
  exact parse?_of_statements dialect hline (hmany _ _) gap_nil

end RouteBook.Source
