import Mathlib.Data.List.Induction
import Mathlib.Data.List.Nodup
import RouteBook.Pairing

/-! Which comment is found for a position: the last one among those that end before it. Main
statement: sorting the comments and searching in halves agrees with a plain look through all of
them. -/
namespace RouteBook.Pairing
variable {x : Int} {lo hi : Nat}

theorem lowerBound_append {xs ys : List Int} (hx : ∀ e ∈ xs, e < x) (hy : ∀ e ∈ ys, ¬ e < x)
    (hlo : lo ≤ xs.length) (hhi : xs.length ≤ hi) (hsize : hi ≤ (xs ++ ys).length) :
    lowerBound (xs ++ ys).toArray x lo hi = xs.length := by
  fun_induction lowerBound (xs ++ ys).toArray x lo hi with
  | case1 lo hi hlt mid hbelow ih =>
    have hmid : mid < xs.length := by
      by_contra hge
      have hin : mid < (xs ++ ys).length := by omega
      have hget : (xs ++ ys).toArray.getD mid 0 = (xs ++ ys)[mid] := dif_pos hin
      rw [hget, List.getElem_append_right (by omega)] at hbelow
      exact hy _ (List.getElem_mem _) hbelow
    exact ih (by omega) hhi hsize
  | case2 lo hi hlt mid habove ih =>
    have hmid : ¬ mid < xs.length := by
      intro hin
      have hget : (xs ++ ys).toArray.getD mid 0 = xs[mid] := by
        simp [Array.getD, hin, Nat.lt_add_right]
      rw [hget] at habove
      exact habove (hx _ (List.getElem_mem _))
    exact ih hlo (by omega) (by omega)
  | case3 lo hi hge => omega

theorem lookup_append {ds es : List DocFact} (hd : ∀ d ∈ ds, d.endPosition < x)
    (he : ∀ e ∈ es, ¬ e.endPosition < x) : lookup (ds ++ es).toArray x = ds.getLast? := by
  have hends : (ds ++ es).toArray.map (·.endPosition) =
      (ds.map (·.endPosition) ++ es.map (·.endPosition)).toArray := by simp
  have hcount : lowerBound (ds.map (·.endPosition) ++ es.map (·.endPosition)).toArray x 0
      (ds ++ es).length = ds.length := by
    rw [lowerBound_append (by simpa using hd) (by simpa using he) (Nat.zero_le _) (by simp)
      (by simp), List.length_map]
  rw [lookup, hends, List.size_toArray, hcount]
  cases ds using List.reverseRecOn with
  | nil => rfl
  | append_singleton ds d => simp

theorem byEnd_of_pairwise {ds : List DocFact}
    (h : ds.Pairwise fun d e => d.endPosition ≤ e.endPosition) : byEnd ds = ds.toArray := by
  rw [byEnd, List.mergeSort_of_pairwise (h.imp fun hde => decide_eq_true hde)]

/-- On comments in the order of their ends, the search finds the last one that ends before the
position. -/
theorem lookup_of_pairwise {ds : List DocFact}
    (h : ds.Pairwise fun d e => d.endPosition ≤ e.endPosition) :
    lookup ds.toArray x = (ds.filter (·.endPosition < x)).getLast? := by
  have hcut : ∃ as bs, ds = as ++ bs ∧ (∀ a ∈ as, a.endPosition < x) ∧
      ∀ b ∈ bs, ¬ b.endPosition < x := by
    induction ds with
    | nil => exact ⟨[], [], rfl, by simp, by simp⟩
    | cons d ds ih =>
      obtain ⟨hd, hds⟩ := List.pairwise_cons.mp h
      by_cases hlt : d.endPosition < x
      · obtain ⟨as, bs, rfl, has, hbs⟩ := ih hds
        exact ⟨d :: as, bs, rfl, by simpa [hlt] using has, hbs⟩
      · refine ⟨[], d :: ds, rfl, by simp, fun b hb hb' => ?_⟩
        obtain rfl | hb := List.mem_cons.mp hb
        · exact hlt hb'
        · exact hlt (Int.lt_of_le_of_lt (hd b hb) hb')
  obtain ⟨as, bs, rfl, has, hbs⟩ := hcut
  have hall : as.filter (·.endPosition < x) = as := by simpa using has
  have hnone : bs.filter (·.endPosition < x) = [] := by simpa using hbs
  rw [lookup_append has hbs, List.filter_append, hall, hnone, List.append_nil]

/-- A plain look through all comments: of those that end before a position the one that ends last,
and of several such comments the last one. -/
def nearest? (x : Int) : List DocFact → Option DocFact
  | [] => none
  | d :: ds =>
    if d.endPosition < x ∧ (nearest? x ds).all (·.endPosition < d.endPosition) then some d
    else nearest? x ds

/-- What makes a comment the one for a position. -/
def IsNearest (x : Int) (docs : List DocFact) (d : DocFact) : Prop :=
  d.endPosition < x ∧ ∃ front back, docs = front ++ d :: back ∧
    (∀ e ∈ front, e.endPosition < x → e.endPosition ≤ d.endPosition) ∧
    ∀ e ∈ back, e.endPosition < x → e.endPosition < d.endPosition

section Nearest
variable {docs front back : List DocFact} {d : DocFact}

theorem IsNearest.mem (h : IsNearest x docs d) : d ∈ docs := by
  obtain ⟨-, front, back, rfl, -⟩ := h
  simp

theorem IsNearest.le (h : IsNearest x docs d) {e : DocFact} (he : e ∈ docs)
    (hlt : e.endPosition < x) : e.endPosition ≤ d.endPosition := by
  obtain ⟨-, front, back, rfl, hfront, hback⟩ := h
  obtain hmem | hmem := List.mem_append.mp he
  · exact hfront e hmem hlt
  · obtain rfl | hmem := List.mem_cons.mp hmem
    · exact Int.le_refl _
    · exact Int.le_of_lt (hback e hmem hlt)

theorem nearest?_eq_none_iff : nearest? x docs = none ↔ ∀ d ∈ docs, ¬ d.endPosition < x := by
  induction docs with
  | nil => simp [nearest?]
  | cons f docs ih =>
    rw [nearest?, List.forall_mem_cons, ← ih]
    split
    · next hf => simp [hf.1]
    · next hf => exact ⟨fun hn => ⟨fun hlt => hf ⟨hlt, by simp [hn]⟩, hn⟩, And.right⟩

theorem isNearest_of_nearest? (h : nearest? x docs = some d) : IsNearest x docs d := by
  induction docs generalizing d with
  | nil => simp [nearest?] at h
  | cons f docs ih =>
    rw [nearest?] at h
    split at h
    · next hf =>
      obtain rfl := Option.some.inj h
      refine ⟨hf.1, [], docs, rfl, by simp, fun e he hlt => ?_⟩
      cases hn : nearest? x docs with
      | none => exact absurd hlt (nearest?_eq_none_iff.mp hn e he)
      | some g =>
        have hg : g.endPosition < f.endPosition := by simpa [hn] using hf.2
        exact Int.lt_of_le_of_lt ((ih hn).le he hlt) hg
    · next hf =>
      obtain ⟨hd, front, back, rfl, hfront, hback⟩ := ih h
      refine ⟨hd, f :: front, back, rfl, fun e he hlt => ?_, hback⟩
      obtain rfl | he := List.mem_cons.mp he
      · by_contra hgt
        exact hf ⟨hlt, by simpa [h] using hgt⟩
      · exact hfront e he hlt

theorem nearest?_of_isNearest (h : IsNearest x docs d) : nearest? x docs = some d := by
  obtain ⟨hd, front, back, rfl, hfront, hback⟩ := h
  induction front with
  | nil =>
    have hlater : (nearest? x back).all (·.endPosition < d.endPosition) := by
      rw [Option.all_eq_true]
      intro e he
      have hnear := isNearest_of_nearest? he
      exact decide_eq_true (hback e hnear.mem hnear.1)
    rw [List.nil_append, nearest?, if_pos ⟨hd, hlater⟩]
  | cons f front ih =>
    have hrest := ih fun e he => hfront e (List.mem_cons_of_mem f he)
    have hf : ¬ (f.endPosition < x ∧ d.endPosition < f.endPosition) := fun hf =>
      Int.not_le.mpr hf.2 (hfront f (by simp) hf.1)
    rw [List.cons_append, nearest?, hrest, if_neg (by simpa using hf)]

/-- A later position never gets a comment that ends earlier. -/
theorem nearest?_mono {y : Int} (hxy : x ≤ y) (h : nearest? x docs = some d) :
    ∃ e, nearest? y docs = some e ∧ d.endPosition ≤ e.endPosition := by
  have hd := isNearest_of_nearest? h
  have hlt : d.endPosition < y := Int.lt_of_lt_of_le hd.1 hxy
  cases he : nearest? y docs with
  | none => exact absurd hlt (nearest?_eq_none_iff.mp he d hd.mem)
  | some e => exact ⟨e, rfl, (isNearest_of_nearest? he).le hd.mem hlt⟩

/-- Where no two comments end at the same place, their order does not matter. -/
theorem nearest?_perm {docs' : List DocFact} (hp : docs'.Perm docs)
    (hd : (docs.map (·.endPosition)).Nodup) : nearest? x docs' = nearest? x docs := by
  cases hn : nearest? x docs' with
  | none =>
    rw [eq_comm, nearest?_eq_none_iff]
    exact fun d hmem => nearest?_eq_none_iff.mp hn d (hp.mem_iff.mpr hmem)
  | some d =>
    have hnear := isNearest_of_nearest? hn
    have hmem : d ∈ docs := hp.mem_iff.mp hnear.mem
    cases he : nearest? x docs with
    | none => exact absurd hnear.1 (nearest?_eq_none_iff.mp he d hmem)
    | some e =>
      have hother := isNearest_of_nearest? he
      have hends : d.endPosition = e.endPosition :=
        Int.le_antisymm (hother.le hmem hnear.1)
          (hnear.le (hp.mem_iff.mpr hother.mem) hother.1)
      rw [List.inj_on_of_nodup_map hd hmem hother.mem hends]

/-- One more comment, put behind those that end before it and in front of all others, is found
unless one of the others is nearer. -/
theorem getLast?_insert (hfront : ∀ e ∈ front, e.endPosition < d.endPosition)
    (hback : ∀ e ∈ back, d.endPosition ≤ e.endPosition) :
    ((front ++ d :: back).filter (·.endPosition < x)).getLast? =
      if d.endPosition < x ∧ (((front ++ back).filter (·.endPosition < x)).getLast?).all
        (·.endPosition < d.endPosition) then some d
      else ((front ++ back).filter (·.endPosition < x)).getLast? := by
  by_cases hd : d.endPosition < x
  · rw [List.filter_append, List.filter_append, List.filter_cons_of_pos (by simpa using hd),
      List.getLast?_append, List.getLast?_append, List.getLast?_cons]
    cases hb : (back.filter (·.endPosition < x)).getLast? with
    | none =>
      have hall : ((front.filter (·.endPosition < x)).getLast?).all
          (·.endPosition < d.endPosition) := by
        rw [Option.all_eq_true]
        intro e he
        have hmem := (List.mem_filter.mp (List.mem_of_getLast? he)).1
        exact decide_eq_true (hfront e hmem)
      rw [Option.none_or, Option.getD_none, Option.some_or, if_pos ⟨hd, hall⟩]
    | some e =>
      have hmem := (List.mem_filter.mp (List.mem_of_getLast? hb)).1
      simp [Int.not_lt.mpr (hback e hmem)]
  · simp [hd]

end Nearest

/-- Sorting and searching agree with the plain look through all comments. -/
theorem lookup_byEnd (docs : List DocFact) (x : Int) : lookup (byEnd docs) x = nearest? x docs := by
  have htrans (a b c : DocFact) : decide (a.endPosition ≤ b.endPosition) = true →
      decide (b.endPosition ≤ c.endPosition) = true →
        decide (a.endPosition ≤ c.endPosition) = true := by
    simpa using Int.le_trans
  have htotal (a b : DocFact) :
      (decide (a.endPosition ≤ b.endPosition) || decide (b.endPosition ≤ a.endPosition)) =
      true := by
    simpa using Int.le_total a.endPosition b.endPosition
  have hsorted (docs : List DocFact) := (List.pairwise_mergeSort htrans htotal docs).imp
    fun h => of_decide_eq_true h
  rw [byEnd, lookup_of_pairwise (hsorted docs)]
  -- the sort is stable: it puts the first comment in front of those that end at the same place
  induction docs with
  | nil => simp [nearest?]
  | cons d docs ih =>
    obtain ⟨front, back, hnew, hold, hfront⟩ := List.mergeSort_cons htrans htotal d docs
    have hback := (List.pairwise_append.mp (hnew ▸ hsorted (d :: docs))).2.1
    rw [nearest?, ← ih, hnew, hold]
    exact getLast?_insert (fun e he => by simpa using hfront e he)
      (List.pairwise_cons.mp hback).1

/-- Every route gets the comment that ends last among those that end before it, of several such
comments the last one, and none if there is no such comment. The order of the comments matters only
where two of them end at the same place, and a route further on never gets a comment that ends
earlier. -/
theorem routes_get_nearest_comment (routes : List RouteFact) (docs : List DocFact) :
    (pair routes docs).map Prod.fst = routes ∧
    pair routes docs = routes.map (fun r => (r, nearest? r.position docs)) ∧
    (∀ r doc, (r, doc) ∈ pair routes docs →
      (doc = none ↔ ∀ d ∈ docs, ¬ d.endPosition < r.position) ∧
      ∀ d, doc = some d ↔ IsNearest r.position docs d) ∧
    (∀ docs', docs'.Perm docs → (docs.map (·.endPosition)).Nodup →
      pair routes docs' = pair routes docs) ∧
    ∀ r d r' doc, (r, some d) ∈ pair routes docs → (r', doc) ∈ pair routes docs →
      r.position ≤ r'.position → ∃ e, doc = some e ∧ d.endPosition ≤ e.endPosition := by
  have hpair (docs : List DocFact) :
      pair routes docs = routes.map fun r => (r, nearest? r.position docs) := by
    simp only [pair, lookup_byEnd]
  have hdoc {r : RouteFact} {doc : Option DocFact} (h : (r, doc) ∈ pair routes docs) :
      doc = nearest? r.position docs := by
    rw [hpair] at h
    obtain ⟨r', -, he⟩ := List.mem_map.mp h
    obtain ⟨rfl, rfl⟩ := Prod.mk.inj he
    rfl
  refine ⟨by simp [hpair, Function.comp_def], hpair docs, ?_, ?_, ?_⟩
  · intro r doc h
    rw [hdoc h]
    exact ⟨nearest?_eq_none_iff, fun d => ⟨isNearest_of_nearest?, nearest?_of_isNearest⟩⟩
  · intro docs' hp hd
    simp only [hpair, nearest?_perm hp hd]
  · intro r d r' doc h h' hle
    rw [hdoc h']
    exact nearest?_mono hle (hdoc h).symm

/-- A comment that ends at a place, and a route that stands at one. -/
def docTo (stop : Int) : DocFact := { endPosition := stop }
def routeAt (position : Int) : RouteFact := { method := .get, path := "/a", position }

/-- Comments in no order, and a route that stands where one of them ends. -/
theorem routes_get_nearest_comment_unordered :
    pair [routeAt 9, routeAt 2, routeAt 30] [docTo 9, docTo 2, docTo 5] =
      [(routeAt 9, some (docTo 5)), (routeAt 2, none), (routeAt 30, some (docTo 9))] ∧
    IsNearest 9 [docTo 9, docTo 2, docTo 5] (docTo 5) ∧
    pair [routeAt 9, routeAt 2, routeAt 30] [docTo 5, docTo 2, docTo 9] =
      pair [routeAt 9, routeAt 2, routeAt 30] [docTo 9, docTo 2, docTo 5] ∧
    ∃ e, some (docTo 9) = some e ∧ (docTo 5).endPosition ≤ e.endPosition := by
  obtain ⟨-, hscan, hnear, hperm, hmono⟩ :=
    routes_get_nearest_comment [routeAt 9, routeAt 2, routeAt 30] [docTo 9, docTo 2, docTo 5]
  have hpairs : pair [routeAt 9, routeAt 2, routeAt 30] [docTo 9, docTo 2, docTo 5] =
      [(routeAt 9, some (docTo 5)), (routeAt 2, none), (routeAt 30, some (docTo 9))] := by
    rw [hscan]
    decide
  refine ⟨hpairs, ?_, ?_, ?_⟩
  · exact ((hnear (routeAt 9) (some (docTo 5)) (by simp [hpairs])).2 (docTo 5)).mp rfl
  · exact hperm [docTo 5, docTo 2, docTo 9] (by decide) (by decide)
  · exact hmono (routeAt 9) (docTo 5) (routeAt 30) (some (docTo 9)) (by simp [hpairs])
      (by simp [hpairs]) (by decide)

end RouteBook.Pairing
