import RouteBook.DocComment.Parser
import RouteBook.Proofs.Descriptor

/-! The responses that a documentation comment hands on: no line can name one without a status
code, and no code is listed twice. -/
namespace RouteBook.DocComment

def Entry.Coded : Entry → Prop
  | .response code _ => isStatusCode code = true
  | _ => True

theorem response?_code {rest : List Char} {code text : String}
    (h : response? rest = some (code, text)) : isStatusCode code = true := by
  unfold response? at h
  split at h
  · rename_i a b c rest
    split at h
    · rename_i hd
      obtain ⟨_, -, he⟩ := Option.map_eq_some_iff.mp h
      obtain ⟨rfl, -⟩ := Prod.mk.inj he
      simpa [isStatusCode] using hd
    · cases h
  · cases h

theorem Entry.coded_ofLine (line : String) : (Entry.ofLine line).Coded := by
  unfold Entry.ofLine
  split
  · trivial
  · rename_i word rest _
    split
    all_goals try trivial
    · split <;> trivial
    · cases h : response? rest with
      | none => trivial
      | some r => exact response?_code h

theorem Draft.statusMap_add {d : Draft} (h : StatusMap d.responses) {e : Entry} (he : e.Coded) :
    StatusMap (d.add e).responses := by
  cases e with
  | route rest path => cases path <;> exact h
  | response code text => exact h.put he text
  | text s | tag s | security s =>
    simp only [Draft.add]
    split <;> exact h
  | summary s | description s | param p | other => exact h

theorem Draft.statusMap_addAll {d : Draft} (h : StatusMap d.responses) (lines : List String) :
    StatusMap (lines.foldl (fun d line => d.add (Entry.ofLine line)) d).responses := by
  induction lines generalizing d with
  | nil => exact h
  | cons line lines ih => exact ih (statusMap_add h (Entry.coded_ofLine line))

theorem statusMap_of_parse? {text : String} {stop : Int} {f : DocFact}
    (h : parse? text stop = some f) : StatusMap f.responses := by
  have hd := Draft.statusMap_addAll (d := {}) .nil (lines text)
  simp only [parse?, Draft.toFact?] at h
  split at h
  · obtain rfl := Option.some.inj h
    exact hd
  · cases h

end RouteBook.DocComment
