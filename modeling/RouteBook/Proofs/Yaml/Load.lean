import RouteBook.Proofs.Yaml.Building
import RouteBook.Proofs.Yaml.Document

/-! The value that is loaded from the text of a plain one: the same, unless a text in single quotes
has a next-line character or a key is too long for where it stands. -/
namespace RouteBook.Yaml
open Value (Plain)

def rereadText (s : String) : String :=
  String.ofList (reread ((scalarOf (.str s)).style false) s.toList)

/-- Whether a text is read back as itself: single quotes do not keep a next-line character. -/
def keepsText (s : String) : Bool :=
  (scalarOf (.str s)).style false != .single || !s.toList.contains '\x85'

theorem rereadText_of_keeps {s : String} (h : keepsText s = true) : rereadText s = s := by
  have hsame : reread ((scalarOf (.str s)).style false) s.toList = s.toList := by
    unfold reread
    split
    · next hstyle =>
      refine readNel_of_not_mem ?_ false
      simpa [keepsText, hstyle] using h
    · rfl
  rw [rereadText, hsame, String.ofList_toList]

/-- What was read once is read again as it is. -/
theorem keepsText_rereadText (s : String) : keepsText (rereadText s) = true := by
  by_cases hstyle : (scalarOf (.str s)).style false = .single
  · have hnel : '\x85' ∉ (rereadText s).toList := by
      simpa [rereadText, reread, hstyle] using nel_not_mem_readNel false s.toList
    simp [keepsText, hnel]
  · have hsame : rereadText s = s := by simp [rereadText, reread, hstyle]
    simp [keepsText, hsame, hstyle]

theorem node_str (s : String) :
    (scalarOf (.str s)).node = .scalar (.scalar .str) (rereadText s) := by
  have htag : Node.scalarTag none (rereadText s) ((scalarOf (.str s)).style false = .bare) =
      .scalar .str := by
    by_cases hstyle : (scalarOf (.str s)).style false = .bare
    · have hplain := beq_iff_eq.mp (chooseStyle_bare hstyle).1
      have hsame : rereadText s = s := by simp [rereadText, reread, hstyle]
      rw [hsame, decide_eq_true hstyle]
      exact congrArg Tag.scalar hplain
    · rw [decide_eq_false hstyle]
      rfl
  exact congrArg (Node.scalar · (rereadText s)) htag

theorem node_bool (b : Bool) :
    (scalarOf (.bool b)).node = .scalar (.scalar .bool) (if b then "true" else "false") := by
  cases b <;> rfl

/-- A value denoted by the node of another one: it has only texts that can be kept, and it is the
one that was written if that had only such texts. -/
structure Restores (v w : Value) : Prop where
  denotes : Denotes (nodeOf v) w
  kept : w.every keepsText keepsText = true
  same : v.every keepsText keepsText = true → w = v

theorem restores_str (s : String) : Restores (.str s) (.str (rereadText s)) := by
  have hnode : nodeOf (.str s) = (Content.text (rereadText s)).node (.scalar .str) := by
    rw [nodeOf, node_str]
    · rfl
    all_goals simp
  refine ⟨?_, keepsText_rereadText s, fun h => congrArg Value.str (rereadText_of_keeps h)⟩
  rw [hnode]
  exact .scalar rfl

theorem restores_bool (b : Bool) : Restores (.bool b) (.bool b) := by
  have hnode : nodeOf (.bool b) =
      (Content.text (if b then "true" else "false")).node (.scalar .bool) := by
    rw [nodeOf, node_bool]
    · rfl
    all_goals simp
  refine ⟨?_, rfl, fun _ => rfl⟩
  rw [hnode]
  cases b <;> exact .scalar rfl

theorem restores_list {items : List Value} (h : ∀ v ∈ items, ∃ w, Restores v w) :
    ∃ w, Restores (.list items) w := by
  have hitems : ∃ ws, DenotesAll (itemNodes items) ws ∧
      Value.everyItem keepsText keepsText ws = true ∧
      (Value.everyItem keepsText keepsText items = true → ws = items) := by
    induction items with
    | nil => exact ⟨[], .nil, rfl, fun _ => rfl⟩
    | cons v items ih =>
      obtain ⟨ws, hd, hk, hs⟩ := ih fun x hx => h x (List.mem_cons_of_mem v hx)
      obtain ⟨w, hw⟩ := h v (by simp)
      refine ⟨w :: ws, .cons hw.denotes hd, ?_, fun hevery => ?_⟩
      · exact Bool.and_eq_true_iff.mpr ⟨hw.kept, hk⟩
      · obtain ⟨hev, hes⟩ := Bool.and_eq_true_iff.mp hevery
        exact congrArg₂ List.cons (hw.same hev) (hs hes)
  obtain ⟨ws, hd, hk, hs⟩ := hitems
  exact ⟨.list ws, .list hd, hk, fun hevery => congrArg Value.list (hs hevery)⟩

theorem entryNodes_cons (f : String × Value) (fields : List (String × Value)) :
    entryNodes (Value.entries (f :: fields)) =
      (.scalar (.scalar .str) (rereadText f.1), nodeOf f.2) :: entryNodes (Value.entries fields) :=
  congrArg (fun k => (k, nodeOf f.2) :: entryNodes (Value.entries fields)) (node_str f.1)

theorem restores_map {fields : List (String × Value)} (hd : (Pairs.keys fields).Nodup)
    (h : ∀ f ∈ fields, ∃ w, Restores f.2 w) : ∃ w, Restores (.map (Value.entries fields)) w := by
  have hfields : ∃ ws : List (String × Value),
      DenotesEntries (entryNodes (Value.entries fields)) (Value.entries ws) ∧
      (∀ f ∈ ws, keepsText f.1 = true ∧ f.2.every keepsText keepsText = true) ∧
      ((∀ f ∈ fields, keepsText f.1 = true ∧ f.2.every keepsText keepsText = true) →
        ws = fields) := by
    clear hd
    induction fields with
    | nil => exact ⟨[], .nil, by simp, fun _ => rfl⟩
    | cons f fields ih =>
      obtain ⟨ws, hdenotes, hk, hs⟩ := ih fun g hg => h g (List.mem_cons_of_mem f hg)
      obtain ⟨w, hw⟩ := h f (by simp)
      refine ⟨(rereadText f.1, w) :: ws, ?_, ?_, fun hevery => ?_⟩
      · rw [entryNodes_cons]
        exact .cons (c := .text (rereadText f.1)) rfl hw.denotes hdenotes
      · exact List.forall_mem_cons.mpr ⟨⟨keepsText_rereadText f.1, hw.kept⟩, hk⟩
      · obtain ⟨⟨hkey, hval⟩, hrest⟩ := List.forall_mem_cons.mp hevery
        exact congrArg₂ List.cons (Prod.ext (rereadText_of_keeps hkey) (hw.same hval)) (hs hrest)
  obtain ⟨ws, hdenotes, hk, hs⟩ := hfields
  have hvalue : Pairs.ofList (Value.entries ws) = Value.entries (Pairs.update [] ws) :=
    Value.update_entries [] ws
  refine ⟨_, .map hdenotes, ?_, fun hevery => ?_⟩
  · -- fields whose keys become equal are merged, but each of them has texts that can be kept
    rw [hvalue, Value.every, Value.everyEntry_iff]
    exact fun f hmem => hk f ((Pairs.mem_update hmem).resolve_left (by simp))
  · rw [Value.every, Value.everyEntry_iff] at hevery
    rw [hs hevery]
    exact congrArg Value.map (Value.ofList_entries hd)

theorem restores_of_plain {v : Value} (h : v.Plain) : ∃ w, Restores v w := by
  induction h with
  | str s => exact ⟨_, restores_str s⟩
  | bool b => exact ⟨_, restores_bool b⟩
  | list _ ih => exact restores_list ih
  | map hd _ ih => exact restores_map hd ih

/-- Whether a key is read back as itself where it is written. -/
def keepsKey (k : String) : Bool := keepsText k && fitsKey k

section Load
variable {fields : List (String × Value)} {m : Nat}

theorem load_print (hne : fields ≠ []) (hp : (Value.map (Value.entries fields)).Plain)
    (hw : (Value.map (Value.entries fields)).Within (m + 1)) (hm : 2 * m + 2 < width) :
    if fits (.map (Value.entries fields)) then
      ∃ w, load (print (.map (Value.entries fields))).toList = .ok w ∧
        Restores (.map (Value.entries fields)) w
    else ∃ e, load (print (.map (Value.entries fields))).toList = .error e := by
  have hscan := scan_print hne hp.fields.2 hw.fields hm
  obtain ⟨f, fs, rfl⟩ := List.exists_cons_of_ne_nil hne
  split at hscan
  · next hfits =>
    obtain ⟨w, hrestores⟩ := restores_of_plain hp
    refine (if_pos hfits).mpr ⟨w, ?_, hrestores⟩
    rw [load, hscan, Node.ofTokens?_mapping hp, Outcome.ok_bind]
    exact build_of_denotes hrestores.denotes
  · next hfits =>
    obtain ⟨e, he⟩ := Node.ofTokens?_broken hscan
    rw [if_neg hfits]
    exact ⟨e, by rw [load, he]; rfl⟩

/-- The text of a mapping can be loaded if its keys can be found. -/
theorem load_print_ok_iff (hne : fields ≠ []) (hp : (Value.map (Value.entries fields)).Plain)
    (hw : (Value.map (Value.entries fields)).Within (m + 1)) (hm : 2 * m + 2 < width) :
    (∃ v, load (print (.map (Value.entries fields))).toList = .ok v) ↔
      fits (.map (Value.entries fields)) = true := by
  have hload := load_print hne hp hw hm
  split at hload
  · next hfits =>
    obtain ⟨w, hw, -⟩ := hload
    exact ⟨fun _ => hfits, fun _ => ⟨w, hw⟩⟩
  · next hfits =>
    obtain ⟨e, he⟩ := hload
    exact ⟨fun ⟨v, hv⟩ => by simp [he] at hv, fun h => absurd h hfits⟩

/-- It is loaded as the same mapping if moreover its texts are kept. -/
theorem load_print_eq_iff (hne : fields ≠ []) (hp : (Value.map (Value.entries fields)).Plain)
    (hw : (Value.map (Value.entries fields)).Within (m + 1)) (hm : 2 * m + 2 < width) :
    load (print (.map (Value.entries fields))).toList = .ok (.map (Value.entries fields)) ↔
      (Value.map (Value.entries fields)).every keepsText keepsKey = true := by
  have hevery : (Value.map (Value.entries fields)).every keepsText keepsKey = true ↔
      (Value.map (Value.entries fields)).every keepsText keepsText = true ∧
        fits (.map (Value.entries fields)) = true := by
    rw [fits, ← Value.every_and_iff hp]
    simp only [Bool.and_true]
    rfl
  have hload := load_print hne hp hw hm
  rw [hevery]
  split at hload
  · next hfits =>
    obtain ⟨w, hload, hrestores⟩ := hload
    rw [hload, Except.ok.injEq]
    exact ⟨fun h => ⟨h ▸ hrestores.kept, hfits⟩, fun h => hrestores.same h.1⟩
  · next hfits =>
    obtain ⟨e, he⟩ := hload
    simp [he, hfits]

end Load

end RouteBook.Yaml
