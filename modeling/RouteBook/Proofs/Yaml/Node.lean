import RouteBook.Proofs.Yaml.Block
import RouteBook.Yaml.Node.Reader

/-! The nodes that are read off the tokens of a plain value, and what a fault among the tokens
does. -/
namespace RouteBook.Yaml

def Scalar.node (s : Scalar) : Node :=
  let text := String.ofList (reread (s.style false) s.text.toList)
  .scalar (Node.scalarTag none text (s.style false = .bare)) text

mutual
def nodeOf : Value → Node
  | .list items => .sequence .seq (itemNodes items)
  | .map entries => .mapping .map (entryNodes entries)
  | v => (scalarOf v).node
def itemNodes : List Value → List Node
  | [] => []
  | v :: rest => nodeOf v :: itemNodes rest
def entryNodes : List (Value × Value) → List (Node × Node)
  | [] => []
  | (k, v) :: rest => ((scalarOf k).node, nodeOf v) :: entryNodes rest
end

namespace Node
variable {α β : Type} {r : Reader α} {f : α → Reader β} {a : α} {b : β} {t u : Token}
  {ts rest : List Token} {fuel : Nat} {place : Place}

def Takes (r : Reader α) (ts : List Token) (a : α) (rest : List Token) : Prop :=
  ∀ s : Reading, r { s with tokens := ts ++ rest } = .ok (a, { s with tokens := rest })

theorem Takes.done (a : α) : Takes (pure a) [] a rest := fun _ => rfl

theorem Takes.bind {U : List Token} (h : Takes r ts a (U ++ rest)) (h' : Takes (f a) U b rest) :
    Takes (r >>= f) (ts ++ U) b rest := by
  intro s
  have hr := h s
  change (r _ >>= fun p => f p.1 p.2) = _
  rw [List.append_assoc, hr]
  exact h' s

theorem Takes.map (h : Takes r ts a rest) (g : α → β) :
    Takes (do let x ← r; return g x) ts (g a) rest := by
  have hbind : Takes (do let x ← r; return g x) (ts ++ []) (g a) rest := Takes.bind h (.done (g a))
  rwa [List.append_nil] at hbind

def isSound : Token → Bool
  | .fault _ => false
  | _ => true

theorem takes_peek (h : isSound t = true) : Takes peek [] t (t :: rest) := by
  intro s
  cases t with
  | fault e => simp [isSound] at h
  | _ => rfl

theorem takes_advance (t : Token) : Takes advance [t] () rest := fun _ => rfl

theorem takes_accept (h : isSound t = true) : Takes (accept t) [t] true rest := by
  refine Takes.bind (U := [t]) (takes_peek h) ?_
  rw [if_pos rfl]
  exact (takes_advance t).bind (.done true)

theorem takes_accept_other (h : isSound t = true) (hu : t ≠ u) :
    Takes (accept u) [] false (t :: rest) := by
  refine Takes.bind (U := []) (takes_peek h) ?_
  rw [if_neg hu]
  exact .done false

theorem takes_expect (h : isSound t = true) : Takes (expect t) [t] () rest :=
  Takes.bind (U := []) (takes_accept h) (.done ())

theorem takes_readOr {ends : List Token} {n : Node} (h : isSound t = true) (ht : t ∉ ends)
    (hn : Takes (read fuel place) (t :: ts) n rest) :
    Takes (read.readOr (fuel + 1) place ends) (t :: ts) n rest := by
  have hends : Takes (atOneOf ends) [] false (t :: (ts ++ rest)) :=
    Takes.bind (U := []) (takes_peek h) (by
      rw [List.contains_eq_mem, decide_eq_false ht]
      exact .done false)
  exact Takes.bind (U := t :: ts) hends hn

theorem takes_readValue {ends : List Token} {n : Node} (h : isSound t = true) (ht : t ∉ ends)
    (hn : Takes (read fuel place) (t :: ts) n rest) :
    Takes (read.readValue (fuel + 2) place ends) (.value :: t :: ts) n rest :=
  Takes.bind (U := t :: ts) (takes_accept rfl) (takes_readOr h ht hn)

theorem takes_scalar (text : String) (bare : Bool) :
    Takes (read (fuel + 1) place) [.scalar text bare] (.scalar (scalarTag none text bare) text)
      rest := by
  intro s
  rfl

theorem takes_brackets_list :
    Takes (read (fuel + 2) place) [.flowSequenceStart, .flowSequenceEnd] (.sequence .seq [])
      rest := by
  intro s
  rfl

theorem takes_brackets_map :
    Takes (read (fuel + 2) place) [.flowMappingStart, .flowMappingEnd] (.mapping .map []) rest := by
  intro s
  rfl

theorem Takes.closed (h : Takes r ts a (.blockEnd :: rest)) (g : α → β) :
    Takes (do let x ← r; expect .blockEnd; pure (g x)) (ts ++ [.blockEnd]) (g a) rest := by
  have hclose : Takes (do expect .blockEnd; pure (g a)) ([.blockEnd] ++ []) (g a) rest :=
    Takes.bind (takes_expect rfl) (.done (g a))
  exact Takes.bind h hclose

theorem takes_sequence {items : List Node} (hp : place ≠ .flow)
    (h : Takes (read.blockItems fuel) ts items (.blockEnd :: rest)) :
    Takes (read (fuel + 1) place) (.blockSequenceStart :: (ts ++ [.blockEnd]))
      (.sequence .seq items) rest := by
  intro s
  cases place with
  | flow => exact absurd rfl hp
  | block => exact h.closed (sequence .seq) s
  | entry => exact h.closed (sequence .seq) s

theorem takes_mapping {entries : List (Node × Node)} (hp : place ≠ .flow)
    (h : Takes (read.blockEntries fuel) ts entries (.blockEnd :: rest)) :
    Takes (read (fuel + 1) place) (.blockMappingStart :: (ts ++ [.blockEnd]))
      (.mapping .map entries) rest := by
  intro s
  cases place with
  | flow => exact absurd rfl hp
  | block => exact h.closed (mapping .map) s
  | entry => exact h.closed (mapping .map) s

theorem takes_loose {items : List Node}
    (h : Takes (read.looseItems fuel) (.blockEntry :: ts) items rest) :
    Takes (read (fuel + 1) .entry) (.blockEntry :: ts) (.sequence .seq items) rest :=
  fun s => h.map (sequence .seq) s

def marks : List Token := [.blockEntry, .key, .value, .blockEnd]

/-- The tokens of a value start with none of the marks, save the entries of a list that has no block
of its own. -/
theorem tokensOf_first (flush : Bool) (v : Value) :
    ∃ t ts, tokensOf flush v = t :: ts ∧ isSound t = true ∧
      (t ∈ marks → flush = true ∧ t = .blockEntry) := by
  unfold tokensOf
  split
  · next items =>
    split_ifs with hempty hflush
    · exact ⟨_, _, rfl, rfl, by simp [marks]⟩
    · cases items with
      | nil => simp at hempty
      | cons v items => exact ⟨_, _, rfl, rfl, fun _ => ⟨hflush, rfl⟩⟩
    · exact ⟨_, _, rfl, rfl, by simp [marks]⟩
  · split_ifs
    · exact ⟨_, _, rfl, rfl, by simp [marks]⟩
    · exact ⟨_, _, rfl, rfl, by simp [marks]⟩
  · exact ⟨_, _, rfl, rfl, by simp [marks, Scalar.token, scalarToken]⟩

def Follows (rest : List Token) : Prop :=
  ∃ t us, rest = t :: us ∧ isSound t = true ∧ t ≠ .blockEntry

def Rereads (v : Value) : Prop :=
  ∀ (flush : Bool) (place : Place) (fuel : Nat) (rest : List Token), place ≠ .flow →
    (flush = true → place = .entry ∧ Follows rest) → 4 * (tokensOf flush v).length + 4 ≤ fuel →
    Takes (read fuel place) (tokensOf flush v) (nodeOf v) rest

theorem takes_items {loop : Nat → Reader (List Node)} {ends : List Token} {items : List Value}
    (hloop : ∀ fuel, loop (fuel + 1) = do
      if ← accept .blockEntry then
        let item ← read.readOr fuel .block ends
        return item :: (← loop fuel)
      else return [])
    (hends : ∀ t ∈ ends, t ∈ marks) (h : ∀ v ∈ items, Rereads v) (hrest : Follows rest)
    (hf : 4 * (itemTokens items).length + 3 ≤ fuel) :
    Takes (loop fuel) (itemTokens items) (itemNodes items) rest := by
  induction items generalizing fuel with
  | nil =>
    obtain ⟨t, us, rfl, hsound, hne⟩ := hrest
    obtain ⟨fuel, rfl⟩ : ∃ n, fuel = n + 1 := ⟨fuel - 1, by omega⟩
    rw [hloop]
    exact Takes.bind (U := []) (takes_accept_other hsound hne) (.done [])
  | cons v items ih =>
    simp only [itemTokens, List.length_cons, List.length_append] at hf
    -- the mark of the entry pays for the calls down to its value
    obtain ⟨fuel, rfl⟩ : ∃ n, fuel = n + 1 + 1 := ⟨fuel - 2, by omega⟩
    obtain ⟨t, ts, hts, hsound, hmark⟩ := tokensOf_first false v
    have hitem : Takes (read.readOr (fuel + 1) .block ends) (tokensOf false v) (nodeOf v)
        (itemTokens items ++ rest) := by
      have hv := h v (by simp) false .block fuel (itemTokens items ++ rest) (by simp) (by simp)
        (by omega)
      rw [hts] at hv ⊢
      exact takes_readOr hsound (fun hmem => by simpa using hmark (hends t hmem)) hv
    have hmore : Takes (loop (fuel + 1)) (itemTokens items) (itemNodes items) rest :=
      ih (fun x hx => h x (by simp [hx])) (by omega)
    rw [hloop]
    exact Takes.bind (takes_accept rfl) (Takes.bind hitem (hmore.map (nodeOf v :: ·)))

theorem takes_entries {fields : List (String × Value)} (h : ∀ f ∈ fields, Rereads f.2)
    (hf : 4 * (entryTokens (Value.entries fields)).length + 3 ≤ fuel) :
    Takes (read.blockEntries fuel) (entryTokens (Value.entries fields))
      (entryNodes (Value.entries fields)) (.blockEnd :: rest) := by
  induction fields generalizing fuel with
  | nil =>
    obtain ⟨fuel, rfl⟩ : ∃ n, fuel = n + 1 := ⟨fuel - 1, by omega⟩
    exact Takes.bind (U := []) (takes_accept_other rfl (by decide)) (.done [])
  | cons f fields ih =>
    obtain ⟨k, v⟩ := f
    have hcons : Value.entries ((k, v) :: fields) = (.str k, v) :: Value.entries fields := rfl
    simp only [hcons, entryTokens, List.length_cons, List.length_append] at hf
    obtain ⟨fuel, rfl⟩ : ∃ n, fuel = n + 1 + 1 + 1 := ⟨fuel - 3, by omega⟩
    have hkey : ∀ us, Takes (read.readOr (fuel + 1 + 1) .entry [.key, .value, .blockEnd])
        [(scalarOf (.str k)).token] (scalarOf (.str k)).node us := fun us =>
      takes_readOr rfl (by simp [Scalar.token, scalarToken]) (takes_scalar _ _)
    have hvalue : Takes (read.readValue (fuel + 1 + 1) .entry [.key, .value, .blockEnd])
        (.value :: tokensOf (isSimpleKey (scalarOf (.str k))) v) (nodeOf v)
        (entryTokens (Value.entries fields) ++ .blockEnd :: rest) := by
      obtain ⟨t, ts, hts, hsound, hmark⟩ := tokensOf_first (isSimpleKey (scalarOf (.str k))) v
      -- a list under a simple key ends where the next key or the end of the block stands
      have hfollows : Follows (entryTokens (Value.entries fields) ++ .blockEnd :: rest) := by
        cases fields with
        | nil => exact ⟨_, _, rfl, rfl, by decide⟩
        | cons f fields => exact ⟨_, _, rfl, rfl, by decide⟩
      have hv : Takes (read fuel .entry) (tokensOf (isSimpleKey (scalarOf (.str k))) v)
          (nodeOf v) _ :=
        h (k, v) (by simp) _ .entry fuel _ (by simp) (fun _ => ⟨rfl, hfollows⟩) (by simp; omega)
      rw [hts] at hv ⊢
      refine takes_readValue hsound (fun hmem => ?_) hv
      have hentry := (hmark (List.mem_cons_of_mem _ hmem)).2
      simp [hentry] at hmem
    have hmore : Takes (read.blockEntries (fuel + 1 + 1)) _ _ _ :=
      ih (fun x hx => h x (by simp [hx])) (by omega)
    exact Takes.bind (takes_accept rfl) (Takes.bind (hkey _) (Takes.bind hvalue
      (hmore.map (((scalarOf (.str k)).node, nodeOf v) :: ·))))

theorem rereads_scalar {v : Value} (htokens : ∀ flush, tokensOf flush v = [(scalarOf v).token])
    (hnode : nodeOf v = (scalarOf v).node) : Rereads v := by
  intro flush place fuel rest _ _ hf
  obtain ⟨fuel, rfl⟩ : ∃ n, fuel = n + 1 := ⟨fuel - 1, by omega⟩
  rw [htokens, hnode]
  exact takes_scalar _ _

theorem rereads_list {items : List Value} (h : ∀ v ∈ items, Rereads v) : Rereads (.list items) := by
  intro flush place fuel rest hp hflush hf
  obtain ⟨fuel, rfl⟩ : ∃ n, fuel = n + 1 + 1 := ⟨fuel - 2, by omega⟩
  cases items with
  | nil =>
    simp only [tokensOf, nodeOf]
    exact takes_brackets_list
  | cons v items =>
    have htokens : ∃ ts, itemTokens (v :: items) = .blockEntry :: ts := ⟨_, rfl⟩
    cases flush with
    | true =>
      obtain ⟨rfl, hrest⟩ := hflush rfl
      simp only [tokensOf, nodeOf, List.isEmpty_cons, Bool.false_eq_true, if_false, if_true] at hf ⊢
      have hitems : Takes (read.looseItems (fuel + 1)) _ _ rest :=
        takes_items (fun _ => rfl) (by simp [marks]) h hrest (by omega)
      obtain ⟨ts, hts⟩ := htokens
      rw [hts] at hitems ⊢
      exact takes_loose hitems
    | false =>
      simp only [tokensOf, nodeOf, List.isEmpty_cons, Bool.false_eq_true, if_false,
        List.length_cons, List.length_append] at hf ⊢
      refine takes_sequence hp (takes_items (fun _ => rfl) (by simp [marks]) h ?_ (by omega))
      exact ⟨_, _, rfl, rfl, by decide⟩

theorem rereads_map {fields : List (String × Value)} (h : ∀ f ∈ fields, Rereads f.2) :
    Rereads (.map (Value.entries fields)) := by
  intro flush place fuel rest hp _ hf
  obtain ⟨fuel, rfl⟩ : ∃ n, fuel = n + 1 + 1 := ⟨fuel - 2, by omega⟩
  cases fields with
  | nil =>
    simp only [tokensOf, nodeOf]
    exact takes_brackets_map
  | cons f fields =>
    have htokens : tokensOf flush (.map (Value.entries (f :: fields))) = .blockMappingStart ::
        (entryTokens (Value.entries (f :: fields)) ++ [.blockEnd]) := by
      simp [tokensOf, Value.entries]
    rw [htokens, List.length_cons, List.length_append] at hf
    rw [htokens, nodeOf]
    exact takes_mapping hp (takes_entries h (by omega))

theorem rereads_of_plain {v : Value} (h : v.Plain) : Rereads v := by
  induction h with
  | str s => exact rereads_scalar (by simp [tokensOf]) (by simp [nodeOf])
  | bool b => exact rereads_scalar (by simp [tokensOf]) (by simp [nodeOf])
  | list _ ih => exact rereads_list ih
  | map _ _ ih => exact rereads_map ih

theorem ofTokens?_of_takes {n : Node} (ht : t = .blockMappingStart ∨ t = .flowMappingStart)
    (h : Takes (read (4 * (t :: ts ++ [Token.streamEnd]).length + 4) .block) (t :: ts) n
      [.streamEnd]) :
    ofTokens? (t :: ts ++ [.streamEnd]) = .ok (some n) := by
  have hrun : document { tokens := t :: ts ++ [.streamEnd] } =
      .ok (some n, ⟨[.streamEnd], usualHandles, []⟩) := by
    have hread := h ⟨[], usualHandles, []⟩
    rcases ht with rfl | rfl
    all_goals
      change (read _ .block ⟨_, usualHandles, []⟩ >>= _) = _
      rw [hread]
      rfl
  rw [ofTokens?, StateT.run, hrun]
  rfl

theorem ofTokens?_mapping {f : String × Value} {fields : List (String × Value)}
    (h : (Value.map (Value.entries (f :: fields))).Plain) :
    ofTokens? (tokensOf false (.map (Value.entries (f :: fields))) ++ [.streamEnd]) =
      .ok (some (nodeOf (.map (Value.entries (f :: fields))))) := by
  have hread := rereads_of_plain h false .block
    (4 * (tokensOf false (.map (Value.entries (f :: fields))) ++ [Token.streamEnd]).length + 4)
    [.streamEnd] (by simp) (by simp) (by simp)
  obtain ⟨ts, hts⟩ : ∃ ts, tokensOf false (.map (Value.entries (f :: fields))) =
      .blockMappingStart :: ts := by
    simp [tokensOf, Value.entries]
  rw [hts] at hread ⊢
  exact ofTokens?_of_takes (.inl rfl) hread

end Node

end RouteBook.Yaml
