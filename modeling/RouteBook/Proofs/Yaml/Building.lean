import Mathlib.Data.List.Perm.Subperm
import RouteBook.Proofs.Except
import RouteBook.Proofs.Pairs
import RouteBook.Proofs.Yaml.Graph
import RouteBook.Yaml.Load

/-! The values of a graph are made level by level, and read back when all are there. The loop is
carried by this: a number that is made has its parts made too, unless it still waits for its turn.
Main statement: a node without references gets the value that it denotes. -/
namespace RouteBook.Yaml
open Yaml.Graph (Shows ShowsAll ShowsEntries ShowsScalar)

theorem isPlain_of_value {t : Tag} {c : Content} {v : Value} (h : c.value t = .ok v) :
    t.isPlain = true := by
  cases t with
  | scalar t => cases t <;> cases c <;> first | rfl | cases h
  | binary => rfl
  | _ => cases c <;> cases h

theorem empty?_of_isPlain {t : Tag} (h : t.isPlain = true) : t.empty? = none := by
  cases t with
  | scalar t => rfl
  | binary => rfl
  | foreign => rfl
  | _ => cases h

namespace Graph
variable {g : Graph} {n : Nat} {v w : Value}

theorem ShowsScalar.isPlain (h : g.ShowsScalar n v) : (g.tag n).isPlain = true := by
  obtain ⟨t, c, hs, hv⟩ := h
  rw [tag, hs]
  exact isPlain_of_value hv

theorem ShowsScalar.unique (h : g.ShowsScalar n v) (h' : g.ShowsScalar n w) : v = w := by
  obtain ⟨t, c, hs, hv⟩ := h
  obtain ⟨t', c', hs', hw⟩ := h'
  cases hs.symm.trans hs'
  exact Except.ok.inj (hv.symm.trans hw)

theorem Shows.scalar_or_collection (h : g.Shows n v) :
    g.ShowsScalar n v ∨ ∃ m, (g.tag n).empty? = some m := by
  cases h with
  | scalar h => exact .inl h
  | list hs => exact .inr ⟨.list [], by rw [tag, hs]; rfl⟩
  | map hs => exact .inr ⟨.map [], by rw [tag, hs]; rfl⟩

theorem set_shape (g : Graph) (n : Nat) : g.set n (g.shape n) = g := by
  by_cases h : n < g.shapes.size
  · simp [set, shape, h, Array.setIfInBounds]
  · simp [set, h, Array.setIfInBounds]

end Graph

namespace Building
variable {g : Graph} {b b' b'' : Building} {busy waiting done : List Nat} {n : Nat} {v : Value}

def MakesEntry (g : Graph) (done : List Nat) (e : Nat × Nat) (f : Value × Nat) : Prop :=
  g.ShowsScalar e.1 f.1 ∧ f.2 = e.2 ∧ e.2 ∈ done

/-- How far a number is made: it is a scalar, it waits for its turn, or its parts are there. -/
inductive Stage (g : Graph) (waiting done : List Nat) (n : Nat) : Made → Prop
  | scalar {v : Value} (h : g.ShowsScalar n v) : Stage g waiting done n (.value v)
  | waits {m : Made} (hw : n ∈ waiting) (hm : (g.tag n).empty? = some m) : Stage g waiting done n m
  | list {ids : List Nat} (hs : g.shape n = .sequence .seq ids) (h : ids ⊆ done) :
      Stage g waiting done n (.list ids)
  | map {ids : List (Nat × Nat)} {fields : List (Value × Nat)} (hs : g.shape n = .mapping .map ids)
      (h : List.Forall₂ (MakesEntry g done) ids fields) : Stage g waiting done n (.map fields)

/-- A state between turns, or in the turn of `busy`. -/
structure Sound (g : Graph) (busy : List Nat) (b : Building) : Prop where
  graph : b.graph = g
  distinct : (Pairs.keys b.made).Nodup
  shows : ∀ n ∈ Pairs.keys b.made, ∃ v, g.Shows n v
  queued : ∀ n ∈ b.queue, n ∈ Pairs.keys b.made ∧ (g.tag n).empty?.isSome
  stage : ∀ n m, Pairs.get? n b.made = some m →
    Stage g (busy ++ b.queue) (Pairs.keys b.made) n m

/-- More numbers are made, and at least as many as come into the queue. -/
structure Grows (b b' : Building) : Prop where
  keys : Pairs.keys b.made ⊆ Pairs.keys b'.made
  fuel : b'.queue.length + (Pairs.keys b.made).length ≤
    b.queue.length + (Pairs.keys b'.made).length

theorem Grows.refl (b : Building) : Grows b b := ⟨List.Subset.refl _, le_rfl⟩

theorem Grows.trans (h : Grows b b') (h' : Grows b' b'') : Grows b b'' := by
  have h₁ := h.fuel
  have h₂ := h'.fuel
  exact ⟨List.Subset.trans h.keys h'.keys, by omega⟩

theorem Stage.mono {waiting' done' : List Nat} {m : Made} (h : Stage g waiting done n m)
    (hw : n ∈ waiting → n ∈ waiting') (hd : done ⊆ done') : Stage g waiting' done' n m := by
  cases h with
  | scalar h => exact .scalar h
  | waits h hm => exact .waits (hw h) hm
  | list hs h => exact .list hs (List.Subset.trans h hd)
  | map hs h => exact .map hs (h.imp fun _ _ he => ⟨he.1, he.2.1, hd he.2.2⟩)

theorem Stage.eq_value {m : Made} (h : Stage g waiting done n m) (hn : g.ShowsScalar n v) :
    m = .value v := by
  have ⟨t, c, hs', _⟩ := hn
  cases h with
  | scalar h => rw [h.unique hn]
  | waits _ hm =>
    rw [empty?_of_isPlain hn.isPlain] at hm
    cases hm
  | list hs => cases hs.symm.trans hs'
  | map hs => cases hs.symm.trans hs'

theorem Stage.eq_list {ids : List Nat} {m : Made} (h : Stage g [] done n m)
    (hn : g.shape n = .sequence .seq ids) : m = .list ids ∧ ids ⊆ done := by
  cases h with
  | scalar h =>
    obtain ⟨t, c, hs, -⟩ := h
    cases hs.symm.trans hn
  | waits hw => cases hw
  | list hs hids =>
    cases hs.symm.trans hn
    exact ⟨rfl, hids⟩
  | map hs => cases hs.symm.trans hn

theorem Stage.eq_map {ids : List (Nat × Nat)} {m : Made} (h : Stage g [] done n m)
    (hn : g.shape n = .mapping .map ids) :
    ∃ fields, m = .map fields ∧ List.Forall₂ (MakesEntry g done) ids fields := by
  cases h with
  | scalar h =>
    obtain ⟨t, c, hs, -⟩ := h
    cases hs.symm.trans hn
  | waits hw => cases hw
  | list hs => cases hs.symm.trans hn
  | map hs hids =>
    cases hs.symm.trans hn
    exact ⟨_, rfl, hids⟩

/-- A number is put in, anew or as what has come of it, and the queue may change by it. -/
theorem Sound.put {busy' queue : List Nat} {m : Made} (h : Sound g busy b) (hn : g.Shows n v)
    (hq : ∀ k ∈ queue, k ∈ b.queue ∨ k = n ∧ (g.tag k).empty?.isSome)
    (hw : ∀ k, k ≠ n → k ∈ busy ++ b.queue → k ∈ busy' ++ queue)
    (hm : Stage g (busy' ++ queue) (Pairs.keys (b.put n m).made) n m) :
    Sound g busy' { b.put n m with queue } := by
  refine ⟨h.graph, Pairs.nodup_keys_put h.distinct n m, fun k hk => ?_, fun k hk => ?_, ?_⟩
  · rcases Pairs.mem_keys_put.mp hk with rfl | hk
    · exact ⟨v, hn⟩
    · exact h.shows k hk
  · rcases hq k hk with hk | ⟨rfl, hc⟩
    · exact (h.queued k hk).imp_left fun hi => Pairs.mem_keys_put.mpr (.inr hi)
    · exact ⟨Pairs.mem_keys_put.mpr (.inl rfl), hc⟩
  · intro k m' hk
    by_cases hkn : k = n
    · subst hkn
      rw [show Pairs.get? k (b.put k m).made = some m from Pairs.get?_put_self k m b.made] at hk
      cases hk
      exact hm
    · rw [show Pairs.get? k (b.put n m).made = Pairs.get? k b.made from
        Pairs.get?_put_of_ne hkn m b.made] at hk
      exact (h.stage k m' hk).mono (hw k hkn) fun _ hi => Pairs.mem_keys_put.mpr (.inr hi)

theorem length_keys_put {m : Made} (h : n ∉ Pairs.keys b.made) :
    (Pairs.keys (b.put n m).made).length = (Pairs.keys b.made).length + 1 := by
  change (Pairs.keys (Pairs.put n m b.made)).length = _
  rw [Pairs.keys_put, if_neg h]
  simp

theorem scalar_eq_ok (h : b.graph.ShowsScalar n v) : b.scalar n = .ok v := by
  have hplain := h.isPlain
  obtain ⟨t, c, hs, hv⟩ := h
  have hcontent : b.graph.content (b.graph.shapes.size + 1) n = .ok c := by
    rw [Graph.content, hs]
  have htype : b.graph.tag n = t := by
    rw [Graph.tag, hs]
    rfl
  rw [htype] at hplain
  unfold scalar
  simp only [htype, hplain, if_true, hcontent, hs, Outcome.ok_bind, hv]

theorem visit_of_made (h : n ∈ Pairs.keys b.made) : b.visit n = .ok b := by
  rw [visit, if_pos (Pairs.contains_iff.mpr h)]

theorem visit_scalar (hnew : n ∉ Pairs.keys b.made) (hs : b.graph.ShowsScalar n v) :
    b.visit n = .ok (b.put n (.value v)) := by
  rw [visit, if_neg (mt Pairs.contains_iff.mp hnew), empty?_of_isPlain hs.isPlain]
  simp only [scalar_eq_ok hs]
  rfl

theorem visit_collection {m : Made} (hnew : n ∉ Pairs.keys b.made)
    (hm : (b.graph.tag n).empty? = some m) :
    b.visit n = .ok { b.put n m with queue := b.queue ++ [n] } := by
  rw [visit, if_neg (mt Pairs.contains_iff.mp hnew), hm]

theorem grows_put_new {queue : List Nat} (hnew : n ∉ Pairs.keys b.made) (m : Made)
    (hq : queue.length ≤ b.queue.length + 1) : Grows b { b.put n m with queue } := by
  refine ⟨fun k hk => Pairs.mem_keys_put.mpr (.inr hk), ?_⟩
  have hlen := length_keys_put (m := m) hnew
  change queue.length + _ ≤ _ + (Pairs.keys (b.put n m).made).length
  omega

/-- A new collection comes to the end of the queue. -/
theorem Sound.await {m : Made} (h : Sound g busy b) (hn : g.Shows n v)
    (hm : (g.tag n).empty? = some m) :
    Sound g busy { b.put n m with queue := b.queue ++ [n] } := by
  refine h.put hn (fun k hk => ?_) (fun k _ hk => ?_) (.waits (by simp) hm)
  · refine (List.mem_append.mp hk).imp_right fun hk => ?_
    rw [List.mem_singleton.mp hk, hm]
    exact ⟨rfl, rfl⟩
  · rw [← List.append_assoc]
    exact List.mem_append_left _ hk

/-- A number that shows a value is visited without fault. -/
theorem visit_eq_ok (h : Sound g busy b) (hn : g.Shows n v) :
    ∃ b', b.visit n = .ok b' ∧ Sound g busy b' ∧ Grows b b' ∧ n ∈ Pairs.keys b'.made := by
  have hgraph := h.graph
  subst hgraph
  have hput (m : Made) : n ∈ Pairs.keys (b.put n m).made := Pairs.mem_keys_put.mpr (.inl rfl)
  by_cases hold : n ∈ Pairs.keys b.made
  · exact ⟨b, visit_of_made hold, h, .refl b, hold⟩
  · obtain hs | ⟨m, hm⟩ := hn.scalar_or_collection
    · exact ⟨_, visit_scalar hold hs,
        h.put hn (fun _ hk => .inl hk) (fun _ _ hk => hk) (.scalar hs),
        grows_put_new hold _ (Nat.le_succ _), hput _⟩
    · exact ⟨_, visit_collection hold hm, h.await hn hm, grows_put_new hold _ (by simp), hput _⟩

theorem visitAll_eq_ok {ids : List Nat} {vs : List Value} (h : Sound g busy b)
    (hs : g.ShowsAll n ids vs) :
    ∃ b', ids.foldlM visit b = .ok b' ∧ Sound g busy b' ∧ Grows b b' ∧
      ids ⊆ Pairs.keys b'.made := by
  induction ids generalizing b vs with
  | nil => exact ⟨b, rfl, h, .refl b, by simp⟩
  | cons i ids ih =>
    cases hs with
    | cons _ hi hs =>
      obtain ⟨b₁, hvisit, h₁, hg₁, hi₁⟩ := visit_eq_ok h hi
      obtain ⟨b₂, hfold, h₂, hg₂, hids⟩ := ih h₁ hs
      rw [List.foldlM_cons, hvisit]
      exact ⟨b₂, hfold, h₂, hg₁.trans hg₂, List.cons_subset.mpr ⟨hg₂.keys hi₁, hids⟩⟩

theorem visitEntries_eq_ok {ids : List (Nat × Nat)} {vs : List (Value × Value)}
    (h : Sound g busy b) (hs : g.ShowsEntries n ids vs) :
    ∃ fields b', visitEntries ids b = .ok (fields, b') ∧ Sound g busy b' ∧ Grows b b' ∧
      List.Forall₂ (MakesEntry g (Pairs.keys b'.made)) ids fields := by
  induction ids generalizing b vs with
  | nil => exact ⟨[], b, rfl, h, .refl b, .nil⟩
  | cons e ids ih =>
    cases hs with
    | cons _ hkey _ hi hs =>
      obtain ⟨b₁, hvisit₁, h₁, hg₁, hk₁⟩ := visit_eq_ok h (.scalar hkey)
      obtain ⟨b₂, hvisit₂, h₂, hg₂, hi₂⟩ := visit_eq_ok h₁ hi
      obtain ⟨fields, b₃, hrest, h₃, hg₃, hfields⟩ := ih h₂ hs
      obtain ⟨m, hm⟩ := Pairs.exists_get?_of_mem_keys hk₁
      rw [(h₁.stage _ m hm).eq_value hkey] at hm
      refine ⟨(_, _) :: fields, b₃, ?_, h₃, hg₁.trans (hg₂.trans hg₃),
        .cons ⟨hkey, rfl, hg₃.keys hi₂⟩ hfields⟩
      simp only [visitEntries, hvisit₁, Outcome.ok_bind, hm, hvisit₂, hrest]
      rfl

/-- Scalars that have a value are no merge keys, so nothing is merged. -/
theorem merge_of_scalars {resolve : Nat → Building → Except LoadError Building}
    {rest own : List (Nat × Nat)} (h : ∀ e ∈ rest, (b.graph.tag e.1).isPlain = true) :
    merge resolve n rest own [] b =
      .ok { b.setEntries n (own ++ rest) with flat := n :: b.flat } := by
  induction rest generalizing own with
  | nil => rw [merge, List.append_nil]; rfl
  | cons e rest ih =>
    obtain ⟨k, i⟩ := e
    obtain ⟨hk, hrest⟩ := List.forall_mem_cons.mp h
    have hmerge : b.graph.tag k ≠ .scalar .merge := fun ht => by simp [ht, Tag.isPlain] at hk
    have hvalue : b.graph.tag k ≠ .scalar .value := fun ht => by simp [ht, Tag.isPlain] at hk
    rw [merge, if_neg hmerge, if_neg hvalue, ih hrest]
    simp

theorem isPlain_of_showsEntries {ids : List (Nat × Nat)} {vs : List (Value × Value)}
    (h : g.ShowsEntries n ids vs) : ∀ e ∈ ids, (g.tag e.1).isPlain = true := by
  induction ids generalizing vs with
  | nil => simp
  | cons e ids ih =>
    cases h with
    | cons _ hkey _ _ h => exact List.forall_mem_cons.mpr ⟨hkey.isPlain, ih h⟩

theorem flatten_eq_ok {ids : List (Nat × Nat)} (fuel : Nat)
    (hs : b.graph.shape n = .mapping .map ids)
    (h : ∀ e ∈ ids, (b.graph.tag e.1).isPlain = true) :
    ∃ flat, flatten (fuel + 1) n b = .ok { b with flat } := by
  rw [flatten]
  by_cases hflat : b.flat.contains n = true
  · rw [if_pos hflat]
    exact ⟨b.flat, rfl⟩
  · have hentries : b.graph.entries n = ids := by
      rw [Graph.entries, hs]
      rfl
    have hset : b.setEntries n ids = b := by
      have hsame : (b.graph.shape n).withEntries ids = b.graph.shape n := by
        rw [hs]
        rfl
      rw [setEntries, hsame, Graph.set_shape]
    rw [if_neg hflat, hentries, merge_of_scalars h, List.nil_append, hset]
    exact ⟨n :: b.flat, rfl⟩

theorem keys_put_of_mem (h : n ∈ Pairs.keys b.made) (m : Made) :
    Pairs.keys (b.put n m).made = Pairs.keys b.made := by
  change Pairs.keys (Pairs.put n m b.made) = _
  rw [Pairs.keys_put, if_pos h]

theorem Sound.put_back {m : Made} (h : Sound g [n] b) (hn : g.Shows n v)
    (hmade : n ∈ Pairs.keys b.made) (hm : Stage g b.queue (Pairs.keys b.made) n m) :
    Sound g [] (b.put n m) := by
  refine h.put hn (fun _ hk => .inl hk) (fun k hkn hk => ?_) ?_
  · exact (List.mem_append.mp hk).resolve_left (mt List.mem_singleton.mp hkn)
  · rwa [keys_put_of_mem hmade]

theorem grows_put_back (hmade : n ∈ Pairs.keys b.made) (m : Made) : Grows b (b.put n m) := by
  have hkeys := keys_put_of_mem hmade m
  exact ⟨by rw [hkeys]; exact List.Subset.refl _, by rw [hkeys]; exact le_rfl⟩

theorem fill_eq_ok (h : Sound g [n] b) (hn : g.Shows n v) (hmade : n ∈ Pairs.keys b.made)
    (hc : (g.tag n).empty?.isSome) :
    ∃ b', b.fill n = .ok b' ∧ Sound g [] b' ∧ Grows b b' := by
  have hgraph := h.graph
  subst hgraph
  cases hn with
  | scalar hs =>
    rw [empty?_of_isPlain hs.isPlain] at hc
    cases hc
  | list hs hall =>
    obtain ⟨b', hvisit, h', hg, hids⟩ := visitAll_eq_ok h hall
    have hmade' := hg.keys hmade
    refine ⟨b'.put n (.list _), ?_, h'.put_back (.list hs hall) hmade' (.list hs hids),
      hg.trans (grows_put_back hmade' _)⟩
    simp only [fill, Graph.tag, hs, Shape.tag, hvisit, Outcome.ok_bind]
    rfl
  | map hs hall =>
    obtain ⟨flat, hflat⟩ := flatten_eq_ok b.entryCount hs (isPlain_of_showsEntries hall)
    have hflatSound : Sound b.graph [n] { b with flat } :=
      ⟨rfl, h.distinct, h.shows, h.queued, h.stage⟩
    obtain ⟨fields, b', hvisit, h', hg, hfields⟩ := visitEntries_eq_ok hflatSound hall
    have hmade' := hg.keys hmade
    refine ⟨b'.put n (.map fields), ?_, h'.put_back (.map hs hall) hmade' (.map hs hfields),
      Grows.trans ⟨hg.keys, hg.fuel⟩ (grows_put_back hmade' _)⟩
    simp only [fill, Graph.tag, hs, Shape.tag, hflat, Outcome.ok_bind, Graph.entries,
      Shape.entries, hvisit]
    rfl

/-- Each number has its turn, since no number is made twice. -/
theorem Sound.length_le (h : Sound g busy b) :
    (Pairs.keys b.made).length ≤ g.shapes.size := by
  have hsub : Pairs.keys b.made ⊆ List.range g.shapes.size := by
    intro n hn
    obtain ⟨v, hv⟩ := h.shows n hn
    exact List.mem_range.mpr hv.lt_size
  simpa using (List.subperm_of_subset h.distinct hsub).length_le

/-- When all turns are over, nothing waits. -/
theorem run_eq_ok (fuel : Nat) (h : Sound g [] b)
    (hfuel : g.shapes.size + b.queue.length ≤ fuel + (Pairs.keys b.made).length) :
    ∃ b', b.run fuel = .ok b' ∧ Sound g [] b' ∧ Pairs.keys b.made ⊆ Pairs.keys b'.made ∧
      b'.queue = [] := by
  induction fuel generalizing b with
  | zero =>
    have hle := h.length_le
    refine ⟨b, rfl, h, List.Subset.refl _, ?_⟩
    rw [← List.length_eq_zero_iff]
    omega
  | succ fuel ih =>
    rw [run]
    cases hq : b.queue with
    | nil => exact ⟨b, rfl, h, List.Subset.refl _, hq⟩
    | cons n rest =>
      have hturn : Sound g [n] { b with queue := rest } := by
        refine ⟨h.graph, h.distinct, h.shows, fun k hk => h.queued k ?_, fun k m hk => ?_⟩
        · rw [hq]
          exact List.mem_cons_of_mem n hk
        · have hstage := h.stage k m hk
          rwa [hq] at hstage
      obtain ⟨hmade, hc⟩ := h.queued n (by rw [hq]; simp)
      obtain ⟨v, hn⟩ := h.shows n hmade
      obtain ⟨b₁, hfill, h₁, hg₁⟩ := fill_eq_ok hturn hn hmade hc
      have hgrows := hg₁.fuel
      rw [hq, List.length_cons] at hfuel
      obtain ⟨b₂, hrun, h₂, hkeys, hempty⟩ := ih h₁ (by simp only at hgrows; omega)
      refine ⟨b₂, ?_, h₂, List.Subset.trans hg₁.keys hkeys, hempty⟩
      simp only [hfill, Outcome.ok_bind, hrun]

end Building

section Read
open Building
variable {g : Graph} {made : List (Nat × Made)} {done : List Nat} {n : Nat} {part : Nat → Value}

def Complete (g : Graph) (made : List (Nat × Made)) : Prop :=
  ∀ n m, Pairs.get? n made = some m → Stage g [] (Pairs.keys made) n m

theorem map_of_showsAll {ids : List Nat} {vs : List Value} (h : g.ShowsAll n ids vs)
    (hids : ids ⊆ done) (hpart : ∀ i v, n < i → i ∈ done → g.Shows i v → part i = v) :
    ids.map part = vs := by
  induction ids generalizing vs with
  | nil =>
    cases h
    rfl
  | cons i ids ih =>
    obtain ⟨hin, hids⟩ := List.cons_subset.mp hids
    cases h with
    | cons hlt hi h => rw [List.map_cons, hpart i _ hlt hin hi, ih h hids]

theorem map_of_showsEntries {ids : List (Nat × Nat)} {fields : List (Value × Nat)}
    {vs : List (Value × Value)} (h : g.ShowsEntries n ids vs)
    (hids : List.Forall₂ (MakesEntry g done) ids fields)
    (hpart : ∀ i v, n < i → i ∈ done → g.Shows i v → part i = v) :
    fields.map (fun e => (e.1, part e.2)) = vs := by
  induction hids generalizing vs with
  | nil =>
    cases h
    rfl
  | cons he hids ih =>
    obtain ⟨hkey, hsame, hin⟩ := he
    cases h with
    | cons _ hkey' hlt hi h =>
      rw [List.map_cons, ih h, hkey.unique hkey', hsame, hpart _ _ hlt hin hi]

/-- A value is read back from a number that shows it. The numbers above it are all smaller, so none
of them comes up again. -/
theorem read_eq (h : Complete g made) {v : Value} (hs : g.Shows n v) (hn : n ∈ Pairs.keys made)
    (fuel : Nat) (hfuel : g.shapes.size ≤ fuel + n) (above : List Nat) (ha : ∀ a ∈ above, a < n) :
    Made.read made fuel above n = v := by
  induction fuel generalizing n v above with
  | zero =>
    have hlt := hs.lt_size
    omega
  | succ fuel ih =>
    have hnew : ¬ above.contains n = true := by
      simpa using fun hmem => lt_irrefl n (ha n hmem)
    have hpart : ∀ i w, n < i → i ∈ Pairs.keys made → g.Shows i w →
        Made.read made fuel (n :: above) i = w := by
      intro i w hlt hi hw
      refine ih hw hi (by omega) _ (List.forall_mem_cons.mpr ⟨hlt, fun a hm => ?_⟩)
      exact (ha a hm).trans hlt
    obtain ⟨m, hm⟩ := Pairs.exists_get?_of_mem_keys hn
    have hstage := h n m hm
    rw [Made.read, if_neg hnew]
    simp only [hm]
    cases hs with
    | scalar hs => rw [hstage.eq_value hs]
    | list hs hall =>
      obtain ⟨rfl, hids⟩ := hstage.eq_list hs
      exact congrArg Value.list (map_of_showsAll hall hids hpart)
    | map hs hall =>
      obtain ⟨fields, rfl, hids⟩ := hstage.eq_map hs
      exact congrArg (fun es => Value.map (Pairs.ofList es)) (map_of_showsEntries hall hids hpart)

end Read

/-- A node without references gets the value that it denotes. -/
theorem build_of_denotes {node : Node} {v : Value} (h : Denotes node v) : node.build = .ok v := by
  obtain ⟨hid, -, hs⟩ := Graph.shows_add h {}
  generalize hadd : Graph.add node {} = r at hid hs
  obtain ⟨n, g⟩ := r
  obtain rfl : n = 0 := hid
  replace hs : g.Shows 0 v := hs
  have hstart : Building.Sound g [] { graph := g } :=
    ⟨rfl, List.nodup_nil, by simp [Pairs.keys], by simp, by simp [Pairs.get?]⟩
  obtain ⟨b, hvisit, hb, hgrows, hmade⟩ := Building.visit_eq_ok hstart hs
  have hfuel := hgrows.fuel
  obtain ⟨b', hrun, hb', hkeys, hempty⟩ := Building.run_eq_ok g.shapes.size hb (by
    simp only [List.length_nil, Pairs.keys, List.map_nil] at hfuel ⊢
    omega)
  have hcomplete : Complete g b'.made := by
    intro k m hk
    have hstage := hb'.stage k m hk
    rwa [hempty] at hstage
  have hread := read_eq hcomplete hs (hkeys hmade) (g.shapes.size + 1) (by omega) [] (by simp)
  unfold Node.build
  simp only [hadd, hvisit, Outcome.ok_bind, hrun, hread]
  rfl

end RouteBook.Yaml
