import RouteBook.Proofs.Except
import RouteBook.Proofs.Yaml.Graph
import RouteBook.Yaml.Load

/-! Where the fault of a node without value comes from. All shapes of its graph come from its parts,
and that stays so while merge keys are resolved. So a fault other than one of the format is that of
a part: of a scalar, or of a mapping that is said to be one. -/
namespace RouteBook.Yaml
open Outcome (Meets)

namespace Node

inductive Part (n : Node) : Node → Prop where
  | self : Part n n
  | item {t : Tag} {m : Node} {items : List Node} : m ∈ items → Part n m →
      Part n (.sequence t items)
  | key {t : Tag} {k v : Node} {entries : List (Node × Node)} : (k, v) ∈ entries → Part n k →
      Part n (.mapping t entries)
  | value {t : Tag} {k v : Node} {entries : List (Node × Node)} : (k, v) ∈ entries → Part n v →
      Part n (.mapping t entries)
  | named {name : String} {m : Node} : Part n m → Part n (.named name m)

/-- Why a node has no value, other than for a breach of the format. -/
inductive Refuses (n : Node) (e : LoadError) : Prop where
  /-- A scalar has no value of its type. -/
  | scalar {t : Tag} {c : Content} (h : Part (c.node t) n) (hv : c.value t = .error e)
  /-- A mapping stands for the scalar under its value key, which has no value of the mapping's
  type. -/
  | mapping {t u : Tag} {entries : List (Node × Node)} {c : Content}
      (h : Part (.mapping t entries) n) (hc : Part (c.node u) n) (hv : c.value t = .error e)
  /-- A mapping is said to be a timestamp. -/
  | timestamp {entries : List (Node × Node)} (h : Part (.mapping (.scalar .timestamp) entries) n)
      (he : e = .badTimestamp)
  /-- The value keys of mappings that are said to be scalars lead back to themselves. -/
  | circle {t : Tag} {entries : List (Node × Node)} (h : Part (.mapping t entries) n)
      (ht : t.isPlain = true ∨ t = .scalar .value) (he : e = .escapeTooLarge)

theorem Part.trans {m n k : Node} (h : Part k m) (h' : Part m n) : Part k n := by
  induction h' with
  | self => exact h
  | item hm _ ih => exact .item hm ih
  | key hm _ ih => exact .key hm ih
  | value hm _ ih => exact .value hm ih
  | named _ ih => exact .named ih

end Node

open Node (Part Refuses)

def IsTypeOf (t u : Tag) : Prop := t = u ∨ u = .scalar .value ∧ t = .scalar .str

inductive Stems (root : Node) : Shape → Prop where
  | scalar {t u : Tag} {c : Content} (h : Part (c.node u) root) (ht : IsTypeOf t u) :
      Stems root (.scalar t c)
  | sequence {t : Tag} {ids : List Nat} : Stems root (.sequence t ids)
  | mapping {t u : Tag} {entries : List (Node × Node)} {ids : List (Nat × Nat)}
      (h : Part (.mapping u entries) root) (ht : IsTypeOf t u) : Stems root (.mapping t ids)
  /-- What stands for a number that is not in the graph. -/
  | outside {ids : List (Nat × Nat)} : Stems root (.mapping .foreign ids)

def Rooted (root : Node) (g : Graph) : Prop := ∀ n, Stems root (g.shape n)

section Graphs
variable {root : Node} {g : Graph} {s : Shape}

theorem Stems.withTag (h : Stems root s) (ht : s.tag = .scalar .value) :
    Stems root (s.withTag (.scalar .str)) := by
  cases h with
  | scalar h hu =>
    obtain rfl | ⟨-, h'⟩ := hu
    · exact .scalar h (.inr ⟨ht, rfl⟩)
    · cases h'.symm.trans ht
  | sequence => exact .sequence
  | mapping h hu =>
    obtain rfl | ⟨-, h'⟩ := hu
    · exact .mapping h (.inr ⟨ht, rfl⟩)
    · cases h'.symm.trans ht
  | outside => cases ht

theorem Stems.withEntries (h : Stems root s) (ids : List (Nat × Nat)) :
    Stems root (s.withEntries ids) := by
  cases h with
  | scalar h hu => exact .scalar h hu
  | sequence => exact .sequence
  | mapping h hu => exact .mapping h hu
  | outside => exact .outside

theorem rooted_empty (root : Node) : Rooted root {} := fun n => by
  rw [Graph.shape_of_size_le (Nat.zero_le n)]
  exact .outside

theorem Rooted.push (h : Rooted root g) (hs : Stems root s) : Rooted root (g.push s) := by
  intro n
  rcases Nat.lt_trichotomy n g.shapes.size with hlt | rfl | hlt
  · rw [Graph.shape_push hlt]
    exact h n
  · rwa [Graph.shape_push_size]
  · rw [Graph.shape_of_size_le (by rwa [Graph.size_push])]
    exact .outside

theorem Rooted.set (h : Rooted root g) (n : Nat) (hs : n < g.shapes.size → Stems root s) :
    Rooted root (g.set n s) := by
  intro m
  by_cases hm : n = m
  · subst hm
    by_cases hlt : n < g.shapes.size
    · rw [Graph.shape_set hlt]
      exact hs hlt
    · rw [Graph.shape_of_size_le (by rwa [Graph.size_set, ← Nat.not_lt])]
      exact .outside
  · rw [Graph.shape_set_of_ne hm]
    exact h m

theorem Rooted.names (h : Rooted root g) (names : List (String × Nat)) :
    Rooted root { g with names } := h

mutual

theorem rooted_add : ∀ (node : Node) {g : Graph}, Part node root → Rooted root g →
    Rooted root (g.add node).2
  | .scalar _ s, _, hp, h => h.push (.scalar (c := .text s) hp (.inl rfl))
  | .halves _ codes, _, hp, h => h.push (.scalar (c := .halves codes) hp (.inl rfl))
  | .sequence _ items, _, hp, h =>
    (rooted_addItems items (fun _ hm => (Part.item hm .self).trans hp) (h.push .sequence)).set _
      fun _ => .sequence
  | .mapping _ entries, _, hp, h =>
    (rooted_addEntries entries (fun _ he => ⟨(Part.key he .self).trans hp,
      (Part.value he .self).trans hp⟩) (h.push (.mapping hp (.inl rfl)))).set _
      fun _ => .mapping hp (.inl rfl)
  | .named _ n, _, hp, h => rooted_add n ((Part.named .self).trans hp) (h.names _)
  | .alias _, _, _, h => h

theorem rooted_addItems : ∀ (items : List Node) {g : Graph}, (∀ m ∈ items, Part m root) →
    Rooted root g → Rooted root (g.addItems items).2
  | [], _, _, h => h
  | n :: rest, _, hp, h =>
    rooted_addItems rest (fun m hm => hp m (List.mem_cons_of_mem n hm))
      (rooted_add n (hp n List.mem_cons_self) h)

theorem rooted_addEntries : ∀ (entries : List (Node × Node)) {g : Graph},
    (∀ e ∈ entries, Part e.1 root ∧ Part e.2 root) → Rooted root g →
    Rooted root (g.addEntries entries).2
  | [], _, _, h => h
  | (k, v) :: rest, _, hp, h =>
    rooted_addEntries rest (fun e he => hp e (List.mem_cons_of_mem _ he))
      (rooted_add v (hp (k, v) List.mem_cons_self).2
        (rooted_add k (hp (k, v) List.mem_cons_self).1 h))

end

end Graphs

/-- The faults of a node: of the format, or of a part that has no value. -/
def Fault (root : Node) (e : LoadError) : Prop := e = .malformed ∨ Refuses root e

namespace Building
variable {root : Node} {α : Type} {b : Building} {n : Nat}

/-- A step that keeps the shapes those of parts, and fails only with a fault of the node. -/
abbrev Stays (root : Node) (graph : α → Graph) (r : Except LoadError α) : Prop :=
  Meets (Fault root) (fun a => Rooted root (graph a)) r

theorem fault_malformed : Fault root .malformed := .inl rfl

theorem value_of_isTypeOf {t u : Tag} {c : Content} {e : LoadError} (h : IsTypeOf t u)
    (hv : c.value t = .error e) : t = u := by
  obtain rfl | ⟨-, rfl⟩ := h
  · rfl
  · cases c <;> cases hv

theorem meets_content (h : Rooted root b.graph) (fuel : Nat) :
    Meets (fun e => e = .malformed ∨ e = .escapeTooLarge) (fun c => ∃ u, Part (c.node u) root)
      (b.graph.content fuel n) := by
  induction fuel generalizing n with
  | zero => exact .inr rfl
  | succ fuel ih =>
    rw [Graph.content]
    have hn := h n
    cases hs : b.graph.shape n with
    | scalar t c =>
      rw [hs] at hn
      cases hn with
      | scalar hp => exact ⟨_, hp⟩
    | sequence t ids => exact .inl rfl
    | mapping t ids =>
      dsimp only
      split
      · exact ih
      · exact .inl rfl

theorem isPlain_of_isTypeOf {t u : Tag} (h : IsTypeOf t u) (ht : t.isPlain = true) :
    u.isPlain = true ∨ u = .scalar .value := by
  obtain rfl | ⟨hu, -⟩ := h
  · exact .inl ht
  · exact .inr hu

theorem fault_of_mapping {t u : Tag} {entries : List (Node × Node)}
    {r : Except LoadError Content} (hp : Part (.mapping u entries) root) (ht : IsTypeOf t u)
    (hplain : t.isPlain = true) (hr : Meets (fun e => e = .malformed ∨ e = .escapeTooLarge)
      (fun c => ∃ u, Part (c.node u) root) r) :
    Meets (Fault root) (fun _ => True) (do
      let c ← r
      if t = .scalar .timestamp then .error .badTimestamp else c.value t) := by
  cases r with
  | error e =>
    rcases hr with rfl | rfl
    · exact fault_malformed
    · exact .inr (.circle hp (isPlain_of_isTypeOf ht hplain) rfl)
  | ok c =>
    obtain ⟨_, hc⟩ := hr
    rw [Outcome.ok_bind]
    by_cases hstamp : t = .scalar .timestamp
    · rw [if_pos hstamp]
      obtain rfl | ⟨-, rfl⟩ := ht
      · subst hstamp
        exact .inr (.timestamp hp rfl)
      · cases hstamp
    · rw [if_neg hstamp]
      cases hv : c.value t with
      | ok v => trivial
      | error e =>
        obtain rfl := value_of_isTypeOf ht hv
        exact .inr (.mapping hp hc hv)

/-- A number without value is that of a part that has none. -/
theorem meets_scalar (h : Rooted root b.graph) :
    Meets (Fault root) (fun _ => True) (b.scalar n) := by
  have hcontent := meets_content h (b.graph.shapes.size + 1) (n := n)
  unfold scalar
  dsimp only
  by_cases hplain : (b.graph.tag n).isPlain = true
  · rw [if_pos hplain]
    have hn := h n
    rw [Graph.tag] at hplain ⊢
    cases hs : b.graph.shape n with
    | scalar t c =>
      rw [hs] at hn
      rw [Graph.content, hs]
      change Meets _ _ (c.value t)
      cases hn with
      | scalar hp ht =>
        cases hv : c.value t with
        | ok v => trivial
        | error e =>
          obtain rfl := value_of_isTypeOf ht hv
          exact .inr (.scalar hp hv)
    | sequence t ids =>
      rw [Graph.content, hs]
      exact fault_malformed
    | mapping t ids =>
      rw [hs] at hn hplain
      cases hn with
      | mapping hp ht => exact fault_of_mapping hp ht hplain hcontent
      | outside => cases hplain
  · rw [if_neg hplain]
    exact fault_malformed

theorem stays_visit (h : Rooted root b.graph) (n : Nat) : Stays root graph (b.visit n) := by
  unfold visit
  split
  · exact h
  · split
    · exact h
    · exact (meets_scalar h).bind fun _ _ => h

theorem rooted_setEntries (h : Rooted root b.graph) (n : Nat) (ids : List (Nat × Nat)) :
    Rooted root (b.setEntries n ids).graph :=
  h.set n fun _ => (h n).withEntries ids

theorem rooted_retag (h : Rooted root b.graph) (hn : b.graph.tag n = .scalar .value) :
    Rooted root (b.retag n).graph :=
  h.set n fun _ => (h n).withTag hn

section Merging
variable {resolve : Nat → Building → Except LoadError Building}
  (hr : ∀ n b, Rooted root b.graph → Stays root graph (resolve n b))
include hr

theorem stays_sources (ns : List Nat) (found : List (Nat × Nat)) (h : Rooted root b.graph) :
    Stays root (fun p => p.2.graph) (sources resolve ns found b) := by
  induction ns generalizing found b with
  | nil => exact h
  | cons n rest ih =>
    rw [sources]
    split
    · exact (hr n b h).bind fun b h => ih _ h
    · exact fault_malformed

theorem stays_source (n : Nat) (h : Rooted root b.graph) :
    Stays root (fun p => p.2.graph) (source resolve n b) := by
  unfold source
  split
  · exact stays_sources hr _ _ h
  · exact stays_sources hr _ _ h

theorem stays_merge (n : Nat) (rest own merged : List (Nat × Nat)) (h : Rooted root b.graph) :
    Stays root graph (merge resolve n rest own merged b) := by
  induction rest generalizing own merged b with
  | nil => exact rooted_setEntries h n _
  | cons e rest ih =>
    obtain ⟨k, v⟩ := e
    rw [merge]
    split
    · refine (stays_source hr v (rooted_setEntries h n _)).bind fun ⟨found, b⟩ hp => ?_
      dsimp only
      split
      · exact rooted_setEntries hp n _
      · exact ih _ _ hp
    · split
      · next hk => exact ih _ _ (rooted_retag h hk)
      · exact ih _ _ h

end Merging

theorem stays_flatten (fuel n : Nat) (h : Rooted root b.graph) :
    Stays root graph (flatten fuel n b) := by
  induction fuel generalizing n b with
  | zero => exact h
  | succ fuel ih =>
    rw [flatten]
    split
    · exact h
    · exact stays_merge (fun n b h => ih n h) n _ _ _ h

theorem stays_visitAll (ids : List Nat) (h : Rooted root b.graph) :
    Stays root graph (ids.foldlM visit b) := by
  induction ids generalizing b with
  | nil => exact h
  | cons i ids ih =>
    rw [List.foldlM_cons]
    exact (stays_visit h i).bind fun b h => ih h

theorem stays_visitPairs (ids : List Nat) (h : Rooted root b.graph) :
    Stays root (fun p => p.2.graph) (visitPairs ids b) := by
  induction ids generalizing b with
  | nil => exact h
  | cons n rest ih =>
    rw [visitPairs]
    split
    · exact (stays_visit h _).bind fun b h => (stays_visit h _).bind fun b h =>
        (ih h).bind fun _ h => h
    · exact fault_malformed

theorem stays_visitEntries (ids : List (Nat × Nat)) (h : Rooted root b.graph) :
    Stays root (fun p => p.2.graph) (visitEntries ids b) := by
  induction ids generalizing b with
  | nil => exact h
  | cons e rest ih =>
    obtain ⟨k, v⟩ := e
    rw [visitEntries]
    refine (stays_visit h k).bind fun b h => ?_
    split
    · exact (stays_visit h v).bind fun b h => (ih h).bind fun _ h => h
    · exact fault_malformed

theorem stays_fill (n : Nat) (h : Rooted root b.graph) : Stays root graph (b.fill n) := by
  unfold fill
  split
  · exact (stays_visitAll _ h).bind fun _ h => h
  · exact (stays_visitPairs _ h).bind fun _ h => h
  · exact (stays_visitPairs _ h).bind fun _ h => h
  · exact (stays_flatten _ n h).bind fun _ h => (stays_visitEntries _ h).bind fun _ h => h
  · exact (stays_flatten _ n h).bind fun _ h => (stays_visitEntries _ h).bind fun _ h => h
  · exact fault_malformed

theorem stays_run (fuel : Nat) (h : Rooted root b.graph) : Stays root graph (b.run fuel) := by
  induction fuel generalizing b with
  | zero => exact h
  | succ fuel ih =>
    rw [run]
    split
    · exact h
    · next n rest hq => exact (stays_fill n (b := { b with queue := rest }) h).bind fun b h => ih h

end Building

/-- A node without value breaks a rule of the format, or has a part that has no value. -/
theorem fault_of_build {node : Node} {e : LoadError} (h : node.build = .error e) :
    e = .malformed ∨ Refuses node e := by
  have hroot : Rooted node (Graph.add node {}).2 := rooted_add node .self (rooted_empty node)
  have hmeets : Meets (Fault node) (fun _ => True) node.build :=
    (Building.stays_visit (b := { graph := (Graph.add node {}).2 }) hroot _).bind fun b h =>
      (Building.stays_run _ h).bind fun _ _ => trivial
  rw [h] at hmeets
  exact hmeets

end RouteBook.Yaml
