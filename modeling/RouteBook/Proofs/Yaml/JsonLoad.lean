import RouteBook.Proofs.Yaml.JsonText
import RouteBook.Proofs.Yaml.Load

/-! The value that is loaded from a document of the JSON grammar. Main statement: under the rules of
spelling that both languages share, it is the value that the document has there. -/
namespace RouteBook.Yaml
open Json (Tree Items Members Document Spelling Numeral codePoints quotedText)
open Config (unifyLineEnds)

namespace Node

def textNode (codes : List Nat) : Node :=
  if codes.all Nat.isValidChar then .scalar (.scalar .str) (String.ofList (codes.map Char.ofNat))
  else .halves (.scalar .str) codes

def wordNode (w : String) : Node := .scalar (.scalar (ScalarTag.ofBare w)) w

mutual
def treeNode : Tree → Node
  | .null => wordNode "null"
  | .bool true => wordNode "true"
  | .bool false => wordNode "false"
  | .number n => wordNode (String.ofList n.text)
  | .string s => textNode (codePoints s)
  | .emptyList _ => .sequence .seq []
  | .list items => .sequence .seq (itemsNodes items)
  | .emptyMap _ => .mapping .map []
  | .map members => .mapping .map (membersNodes members)
def itemsNodes : Items → List Node
  | .last _ v _ => [treeNode v]
  | .next _ v _ rest => treeNode v :: itemsNodes rest
def membersNodes : Members → List (Node × Node)
  | .last _ key _ _ v _ => [(textNode (codePoints key), treeNode v)]
  | .next _ key _ _ v _ rest =>
    (textNode (codePoints key), treeNode v) :: membersNodes rest
end

section Reading
variable {t : Token} {rest : List Token} {fuel : Nat} {place : Place}

def flowMarks : List Token :=
  [.flowSequenceEnd, .flowMappingEnd, .flowEntry, .key, .value]

theorem ofCodes_first (codes : List Nat) :
    isSound (.ofCodes codes) = true ∧ Token.ofCodes codes ∉ flowMarks := by
  unfold Token.ofCodes
  split <;> exact ⟨rfl, by simp [flowMarks]⟩

theorem treeTokens_first (v : Tree) :
    ∃ t ts, treeTokens v = t :: ts ∧ isSound t = true ∧ t ∉ flowMarks := by
  cases v with
  | bool b => cases b <;> exact ⟨_, _, rfl, rfl, by simp [flowMarks]⟩
  | string s => exact ⟨_, _, rfl, ofCodes_first _⟩
  | _ => exact ⟨_, _, rfl, rfl, by simp [flowMarks]⟩

theorem takes_ofCodes (codes : List Nat) :
    Takes (read (fuel + 1) place) [.ofCodes codes] (textNode codes) rest := by
  unfold Token.ofCodes textNode
  split
  · exact takes_scalar _ _
  · exact fun _ => rfl

theorem takes_flowSequence {ts : List Token} {items : List Node}
    (h : Takes (read.flowItems fuel true) ts items rest) :
    Takes (read (fuel + 1) place) (.flowSequenceStart :: ts) (.sequence .seq items) rest :=
  fun s => h.map (sequence .seq) s

theorem takes_flowMapping {ts : List Token} {entries : List (Node × Node)}
    (h : Takes (read.flowEntries fuel true) ts entries rest) :
    Takes (read (fuel + 1) place) (.flowMappingStart :: ts) (.mapping .map entries) rest :=
  fun s => h.map (mapping .map) s

def separator (first : Bool) : List Token := if first then [] else [.flowEntry]

section Round
variable {α : Type} {close : Token} {body : Reader (List α)} {xs : List α} {ts : List Token}

def round (close : Token) (first : Bool) (body : Reader (List α)) : Reader (List α) := do
  if ← accept close then return []
  if !first then expect .flowEntry
  if ← accept close then return []
  body

theorem takes_round_end (hc : isSound close = true) :
    Takes (round close false body) [close] [] rest :=
  Takes.bind (U := []) (takes_accept hc) (.done [])

theorem takes_round (first : Bool) (hc : close ≠ .flowEntry) (ht : isSound t = true)
    (hne : t ≠ close) (hbody : Takes body (t :: ts) xs rest) :
    Takes (round close first body) (separator first ++ t :: ts) xs rest := by
  have hopen : Takes (do
      if ← accept close then return []
      body) (t :: ts) xs rest :=
    Takes.bind (U := t :: ts) (takes_accept_other ht hne) hbody
  cases first with
  | true => exact Takes.bind (U := t :: ts) (takes_accept_other ht hne) hopen
  | false =>
    refine Takes.bind (U := .flowEntry :: t :: ts) (takes_accept_other rfl hc.symm) ?_
    exact Takes.bind (U := t :: ts) (takes_expect rfl) hopen

end Round

theorem flowItems_round (first : Bool) :
    read.flowItems (fuel + 1) first = round .flowSequenceEnd first (do
      let item ←
        if ← accept .key then do
          let key ← read.readOr fuel .flow [.value, .flowEntry, .flowSequenceEnd]
          let value ← read.readValue fuel .flow [.flowEntry, .flowSequenceEnd]
          pure (.mapping .map [(key, value)])
        else read fuel .flow
      return item :: (← read.flowItems fuel false)) := rfl

theorem flowEntries_round (first : Bool) :
    read.flowEntries (fuel + 1) first = round .flowMappingEnd first (do
      let entry ←
        if ← accept .key then do
          let key ← read.readOr fuel .flow [.value, .flowEntry, .flowMappingEnd]
          let value ← read.readValue fuel .flow [.flowEntry, .flowMappingEnd]
          pure (key, value)
        else do
          let key ← read fuel .flow
          pure (key, .empty)
      return entry :: (← read.flowEntries fuel false)) := rfl

theorem takes_flowItems_end :
    Takes (read.flowItems (fuel + 1) false) [.flowSequenceEnd] [] rest := by
  rw [flowItems_round]
  exact takes_round_end rfl

theorem takes_flowItems (first : Bool) {ts us : List Token} {n : Node} {ns : List Node}
    (ht : isSound t = true) (hm : t ∉ flowMarks)
    (hn : Takes (read fuel .flow) (t :: ts) n (us ++ rest))
    (hmore : Takes (read.flowItems fuel false) us ns rest) :
    Takes (read.flowItems (fuel + 1) first) (separator first ++ t :: (ts ++ us)) (n :: ns)
      rest := by
  have hother : ∀ u ∈ flowMarks, t ≠ u := fun u hu h => hm (h ▸ hu)
  rw [flowItems_round]
  refine takes_round first (by simp) ht (hother _ (by simp [flowMarks])) ?_
  exact Takes.bind (U := t :: (ts ++ us)) (takes_accept_other ht (hother _ (by simp [flowMarks])))
    (Takes.bind hn (hmore.map (n :: ·)))

theorem takes_flowEntries_end :
    Takes (read.flowEntries (fuel + 1) false) [.flowMappingEnd] [] rest := by
  rw [flowEntries_round]
  exact takes_round_end rfl

theorem takes_flowEntries (first : Bool) (codes : List Nat) {ts us : List Token} {n : Node}
    {ns : List (Node × Node)} (ht : isSound t = true) (hm : t ∉ flowMarks)
    (hn : Takes (read fuel .flow) (t :: ts) n (us ++ rest))
    (hmore : Takes (read.flowEntries (fuel + 2) false) us ns rest) :
    Takes (read.flowEntries (fuel + 3) first)
      (separator first ++ .key :: .ofCodes codes :: .value :: t :: (ts ++ us))
      ((textNode codes, n) :: ns) rest := by
  obtain ⟨hsound, hmark⟩ := ofCodes_first codes
  have hends : Token.ofCodes codes ∉ [.value, .flowEntry, .flowMappingEnd] := by
    simp only [flowMarks, List.mem_cons, not_or] at hmark ⊢
    exact ⟨hmark.2.2.2.2.1, hmark.2.2.1, hmark.2.1, by simp⟩
  have hends' : t ∉ [.flowEntry, .flowMappingEnd] := by
    simp only [flowMarks, List.mem_cons, not_or] at hm ⊢
    exact ⟨hm.2.2.1, hm.2.1, by simp⟩
  have hkey : Takes (read.readOr (fuel + 2) .flow [.value, .flowEntry, .flowMappingEnd])
      [.ofCodes codes] (textNode codes) ((.value :: t :: (ts ++ us)) ++ rest) :=
    takes_readOr hsound hends (takes_ofCodes codes)
  have hvalue : Takes (read.readValue (fuel + 2) .flow [.flowEntry, .flowMappingEnd])
      (.value :: t :: ts) n (us ++ rest) := takes_readValue ht hends' hn
  rw [flowEntries_round]
  refine takes_round first (by simp) rfl (by simp) ?_
  exact Takes.bind (takes_accept rfl) (Takes.bind hkey
    (Takes.bind hvalue (hmore.map ((textNode codes, n) :: ·))))

mutual

theorem takes_tree : ∀ (v : Tree) (place : Place) (fuel : Nat) (rest : List Token),
    4 * (treeTokens v).length ≤ fuel → Takes (read fuel place) (treeTokens v) (treeNode v) rest
  | v, place, 0, rest, hf => by
    obtain ⟨t, ts, hts, -⟩ := treeTokens_first v
    rw [hts, List.length_cons] at hf
    omega
  | .null, _, fuel + 1, _, _ => takes_scalar _ _
  | .bool b, _, fuel + 1, _, _ => by cases b <;> exact takes_scalar _ _
  | .number n, _, fuel + 1, _, _ => takes_scalar _ _
  | .string s, _, fuel + 1, _, _ => takes_ofCodes _
  | .emptyList gap, _, 1, _, hf => absurd hf (by simp [treeTokens])
  | .emptyList gap, _, fuel + 2, _, _ => takes_brackets_list
  | .emptyMap gap, _, 1, _, hf => absurd hf (by simp [treeTokens])
  | .emptyMap gap, _, fuel + 2, _, _ => takes_brackets_map
  | .list items, _, fuel + 1, rest, hf => by
    simp only [treeTokens, List.length_cons, List.length_append] at hf
    exact takes_flowSequence (takes_itemsTree items true fuel rest (by omega))
  | .map members, _, fuel + 1, rest, hf => by
    simp only [treeTokens, List.length_cons, List.length_append] at hf
    exact takes_flowMapping (takes_members members true fuel rest (by omega))

theorem takes_itemsTree : ∀ (items : Items) (first : Bool) (fuel : Nat) (rest : List Token),
    4 * (itemsTokens items).length + 2 ≤ fuel →
    Takes (read.flowItems fuel first) (separator first ++ (itemsTokens items ++ [.flowSequenceEnd]))
      (itemsNodes items) rest
  | _, _, 0, _, hf => absurd hf (by omega)
  | _, _, 1, _, hf => absurd hf (by omega)
  | .last before v after, first, fuel + 2, rest, hf => by
    obtain ⟨t, ts, hts, ht, hm⟩ := treeTokens_first v
    simp only [itemsTokens] at hf ⊢
    have hv := takes_tree v .flow (fuel + 1) ([.flowSequenceEnd] ++ rest) (by omega)
    rw [hts] at hv ⊢
    exact takes_flowItems first ht hm hv takes_flowItems_end
  | .next before v after more, first, fuel + 2, rest, hf => by
    obtain ⟨t, ts, hts, ht, hm⟩ := treeTokens_first v
    simp only [itemsTokens, List.length_append, List.length_cons] at hf
    have hmore := takes_itemsTree more false (fuel + 1) rest (by omega)
    have hv := takes_tree v .flow (fuel + 1)
      (separator false ++ (itemsTokens more ++ [.flowSequenceEnd]) ++ rest) (by omega)
    rw [hts] at hv
    have hall := takes_flowItems first ht hm hv hmore
    simpa [itemsTokens, itemsNodes, separator, hts] using hall

theorem takes_members : ∀ (members : Members) (first : Bool) (fuel : Nat) (rest : List Token),
    4 * (membersTokens members).length + 2 ≤ fuel →
    Takes (read.flowEntries fuel first)
      (separator first ++ (membersTokens members ++ [.flowMappingEnd])) (membersNodes members) rest
  | _, _, 0, _, hf => absurd hf (by omega)
  | _, _, 1, _, hf => absurd hf (by omega)
  | members, _, 2, _, hf => absurd hf (by cases members <;> simp [membersTokens])
  | .last before key middle ahead v after, first, fuel + 3, rest, hf => by
    obtain ⟨t, ts, hts, ht, hm⟩ := treeTokens_first v
    simp only [membersTokens, List.length_append, List.length_cons] at hf
    have hv := takes_tree v .flow fuel ([.flowMappingEnd] ++ rest) (by omega)
    rw [hts] at hv
    have hall := takes_flowEntries first (codePoints key) ht hm hv takes_flowEntries_end
    simpa [membersTokens, membersNodes, hts] using hall
  | .next before key middle ahead v after more, first, fuel + 3, rest, hf => by
    obtain ⟨t, ts, hts, ht, hm⟩ := treeTokens_first v
    simp only [membersTokens, List.length_append, List.length_cons] at hf
    have hmore := takes_members more false (fuel + 2) rest (by omega)
    have hv := takes_tree v .flow fuel
      (separator false ++ (membersTokens more ++ [.flowMappingEnd]) ++ rest) (by omega)
    rw [hts] at hv
    have hall := takes_flowEntries first (codePoints key) ht hm hv hmore
    simpa [membersTokens, membersNodes, separator, hts] using hall

end

end Reading

section Values

def textContent (codes : List Nat) : Content :=
  if codes.all Nat.isValidChar then .text (String.ofList (codes.map Char.ofNat)) else .halves codes

theorem textNode_eq (codes : List Nat) :
    textNode codes = (textContent codes).node (.scalar .str) := by
  unfold textNode textContent
  split <;> rfl

theorem value_textContent {codes : List Nat} (h : Json.joinHalves codes = codes) :
    (textContent codes).value (.scalar .str) = .ok (Json.textOf codes) := by
  simp only [textContent, Json.textOf, h]
  split <;> rfl

theorem denotes_word {w : String} {v : Value}
    (h : Scalar.value (.scalar (ScalarTag.ofBare w)) w = .ok v) : Denotes (wordNode w) v :=
  .scalar (c := .text w) h

theorem denotes_textNode {codes : List Nat} (h : Json.joinHalves codes = codes) :
    Denotes (textNode codes) (Json.textOf codes) := by
  rw [textNode_eq]
  exact .scalar (value_textContent h)

theorem denotesEntries_text {codes : List Nat} {n : Node} {v : Value}
    {entries : List (Node × Node)} {fields : List (Value × Value)}
    (h : Json.joinHalves codes = codes) (hn : Denotes n v) (hrest : DenotesEntries entries fields) :
    DenotesEntries ((textNode codes, n) :: entries) ((Json.textOf codes, v) :: fields) := by
  rw [textNode_eq]
  exact .cons (value_textContent h) hn hrest

mutual

/-- The node of a value denotes the value. -/
theorem denotes_tree : ∀ t : Tree, t.obeys shared = true → Denotes (treeNode t) t.toValue
  | .null, _ => by
    have htag : ScalarTag.ofBare "null" = .null := by decide +kernel
    exact denotes_word (by rw [htag]; rfl)
  | .bool true, _ => by
    have htag : ScalarTag.ofBare "true" = .bool := by decide +kernel
    exact denotes_word (by rw [htag]; rfl)
  | .bool false, _ => by
    have htag : ScalarTag.ofBare "false" = .bool := by decide +kernel
    exact denotes_word (by rw [htag]; rfl)
  | .number n, ht => denotes_word (value_number n ht)
  | .string s, ht => denotes_textNode (of_decide_eq_true (Bool.and_eq_true_iff.mp ht).2)
  | .emptyList _, _ => .list .nil
  | .list items, ht => .list (denotes_items items ht)
  | .emptyMap _, _ => .map .nil
  | .map members, ht => .map (denotes_members members ht)

theorem denotes_items : ∀ items : Items, items.obeys shared = true →
    DenotesAll (itemsNodes items) items.toValues
  | .last before v after, ht => by
    simp only [Items.obeys, Bool.and_eq_true] at ht
    exact .cons (denotes_tree v ht.1.2) .nil
  | .next before v after more, ht => by
    simp only [Items.obeys, Bool.and_eq_true] at ht
    exact .cons (denotes_tree v ht.1.1.2) (denotes_items more ht.2)

theorem denotes_members : ∀ members : Members, members.obeys shared = true →
    DenotesEntries (membersNodes members) members.toEntries
  | .last before key middle ahead v after, ht => by
    simp only [Members.obeys, shared, isPlainText, Bool.and_eq_true, decide_eq_true_eq] at ht
    exact denotesEntries_text ht.1.1.1.2.1.1.2 (denotes_tree v ht.1.2) .nil
  | .next before key middle ahead v after more, ht => by
    simp only [Members.obeys, shared, isPlainText, Bool.and_eq_true, decide_eq_true_eq] at ht
    exact denotesEntries_text ht.1.1.1.1.2.1.1.2 (denotes_tree v ht.1.1.2)
      (denotes_members more ht.2)

end

end Values

theorem ofTokens?_object {t : Tree} (ho : t.isObject = true) :
    ofTokens? (treeTokens t ++ [.streamEnd]) = .ok (some (treeNode t)) := by
  have hread := takes_tree t .block (4 * (treeTokens t ++ [Token.streamEnd]).length + 4)
    [.streamEnd] (by simp only [List.length_append]; omega)
  obtain ⟨ts, hts⟩ : ∃ ts, treeTokens t = .flowMappingStart :: ts := by
    cases t with
    | emptyMap gap => exact ⟨_, rfl⟩
    | map members => exact ⟨_, rfl⟩
    | _ => cases ho
  rw [hts] at hread ⊢
  exact ofTokens?_of_takes (.inr rfl) hread

end Node

/-- A document that keeps to the shared rules is loaded as the value it has in the JSON grammar. -/
theorem load_document {d : Document} (ho : d.root.isObject = true) (hd : d.obeys shared = true) :
    load (unifyLineEnds d.text) = .ok d.root.toValue := by
  have hroot : d.root.obeys shared = true := by
    simp only [Document.obeys, Bool.and_eq_true] at hd
    exact hd.1.2
  rw [load, scan_document ho hd, Node.ofTokens?_object ho, Outcome.ok_bind]
  exact build_of_denotes (Node.denotes_tree d.root hroot)

theorem shared_implies_shortNumbers : shared.Implies Json.shortNumbers :=
  ⟨fun _ h => (Bool.and_eq_true_iff.mp h).1, fun _ _ => rfl, fun _ _ _ => rfl, fun _ _ => rfl⟩

end RouteBook.Yaml
