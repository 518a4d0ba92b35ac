import Mathlib.Data.List.Nodup
import Mathlib.Data.List.Perm.Subperm
import RouteBook.OperationId
import RouteBook.Proofs.Pairs

/-! Operation ids are kept apart: what number a repeated id gets, that no id is given twice, and
that ids which differ already are left alone. -/
namespace RouteBook.OperationId

theorem suffixed_injective (base : String) : Function.Injective (suffixed base) := by
  intro m n h
  have hl := congrArg String.toList h
  simp only [suffixed, String.toList_append, List.append_cancel_left_eq, Nat.toString_eq_repr,
    Nat.toList_repr] at hl
  rw [← Nat.ofDigitChars_ten_toDigits (n := m), hl, Nat.ofDigitChars_ten_toDigits]

theorem find_free (taken : List String) (base : String) (count : Nat) :
    ∃ k, (List.range' (count + 1) (taken.length + 1)).find?
      (fun k => !taken.contains (suffixed base k)) = some k := by
  rw [← Option.isSome_iff_exists, Option.isSome_iff_ne_none]
  intro h
  -- All candidates are taken, but there is one more of them than there are taken ids.
  have hsub : (List.range' (count + 1) (taken.length + 1)).map (suffixed base) ⊆ taken := by
    intro id hid
    obtain ⟨k, hk, rfl⟩ := List.mem_map.mp hid
    simpa using List.find?_eq_none.mp h k hk
  have hnodup := (List.nodup_range' (s := count + 1) (n := taken.length + 1)).map
    (suffixed_injective base)
  have hle := (hnodup.subperm hsub).length_le
  rw [List.length_map, List.length_range'] at hle
  omega

/-- The number that is found is the least one above `count` whose suffix is free. -/
theorem nextFree_spec (taken : List String) (base : String) (count : Nat) :
    count < nextFree taken base count ∧
    suffixed base (nextFree taken base count) ∉ taken ∧
    ∀ j, count < j → j < nextFree taken base count → suffixed base j ∈ taken := by
  obtain ⟨k, hk⟩ := find_free taken base count
  have hn : nextFree taken base count = k := by rw [nextFree, hk]; rfl
  rw [List.find?_range'_eq_some] at hk
  obtain ⟨hfree, hmem, hless⟩ := hk
  rw [hn]
  refine ⟨?_, by simpa using hfree, ?_⟩
  · have := List.mem_range'_1.mp hmem
    omega
  · intro j hj hjk
    simpa using hless j (by omega) hjk

/-- The id that goes with `base` where `all` are the ids of all descriptors, `bases` those of the
earlier ones and `given` the ids that these got: `base` itself for the first one, else the suffix
with the least number from two on that is neither an id of a descriptor nor given already. -/
def Assigned (all bases given : List String) (base id : String) : Prop :=
  if base ∈ bases then
    ∃ k, 2 ≤ k ∧ id = suffixed base k ∧ id ∉ all ∧ id ∉ given ∧
      ∀ j, 2 ≤ j → j < k → suffixed base j ∈ all ∨ suffixed base j ∈ given
  else id = base

/-- What a registry holds after the ids `bases` were met and the ids `given` were given. -/
structure Registry.Reflects (r : Registry) (all bases given : List String) : Prop where
  seen : ∀ base, Pairs.get? base r.seen = none ↔ base ∉ bases
  taken : ∀ id, id ∈ r.taken ↔ id ∈ all ∨ id ∈ given
  counted : ∀ base count, Pairs.get? base r.seen = some count →
    1 ≤ count ∧ ∀ j, 2 ≤ j → j ≤ count → suffixed base j ∈ r.taken

theorem Registry.reflects_start (all : List String) :
    Registry.Reflects { taken := all } all [] [] :=
  ⟨by simp [Pairs.get?], by simp, by simp [Pairs.get?]⟩

theorem get?_put_eq_none {base key : String} {count : Nat} {seen : List (String × Nat)}
    {bases : List String} (h : Pairs.get? base seen = none ↔ base ∉ bases) :
    Pairs.get? base (Pairs.put key count seen) = none ↔ base ∉ bases ++ [key] := by
  by_cases hb : base = key
  · subst hb
    simp [Pairs.get?_put_self]
  · rw [Pairs.get?_put_of_ne hb, h]
    simp [hb]

theorem Registry.Reflects.assign_first {r : Registry} {all bases given : List String}
    (h : r.Reflects all bases given) {base : String} (hall : base ∈ all) (hb : base ∉ bases) :
    (r.assign base).1 = base ∧
    (r.assign base).2.Reflects all (bases ++ [base]) (given ++ [base]) := by
  have hnone := (h.seen base).mpr hb
  have hassign : r.assign base = (base, { r with seen := Pairs.put base 1 r.seen }) := by
    rw [Registry.assign, hnone]
  rw [hassign]
  refine ⟨rfl, fun b => get?_put_eq_none (h.seen b), ?_, ?_⟩
  · intro id
    rw [h.taken id]
    by_cases hid : id = base
    · simp [hid, hall]
    · simp [hid]
  · intro b count hc
    by_cases hbb : b = base
    · subst hbb
      rw [Pairs.get?_put_self, Option.some.injEq] at hc
      exact ⟨by omega, fun j h2 hj => by omega⟩
    · rw [Pairs.get?_put_of_ne hbb] at hc
      exact h.counted b count hc

theorem Registry.Reflects.assign_later {r : Registry} {all bases given : List String}
    (h : r.Reflects all bases given) {base : String} (hb : base ∈ bases) :
    Assigned all bases given base (r.assign base).1 ∧
    (r.assign base).2.Reflects all (bases ++ [base]) (given ++ [(r.assign base).1]) := by
  cases hs : Pairs.get? base r.seen with
  | none => exact absurd hb ((h.seen base).mp hs)
  | some count =>
    obtain ⟨hone, hcount⟩ := h.counted base count hs
    obtain ⟨hk, hfree, hless⟩ := nextFree_spec r.taken base count
    generalize hkdef : nextFree r.taken base count = k at hk hfree hless
    have hassign : r.assign base = (suffixed base k,
        { seen := Pairs.put base k r.seen, taken := suffixed base k :: r.taken }) := by
      rw [Registry.assign, hs]
      simp only [hkdef]
    have hbelow : ∀ j, 2 ≤ j → j < k → suffixed base j ∈ r.taken := by
      intro j h2 hj
      by_cases hjc : j ≤ count
      · exact hcount j h2 hjc
      · exact hless j (by omega) hj
    have hnot : suffixed base k ∉ all ∧ suffixed base k ∉ given := by
      rwa [h.taken, not_or] at hfree
    rw [hassign]
    refine ⟨?_, fun b => get?_put_eq_none (h.seen b), ?_, ?_⟩
    · rw [Assigned, if_pos hb]
      exact ⟨k, by omega, rfl, hnot.1, hnot.2, fun j h2 hj => (h.taken _).mp (hbelow j h2 hj)⟩
    · intro id
      simp only [List.mem_cons, h.taken id, List.mem_append, List.not_mem_nil, or_false]
      tauto
    · intro b c hc
      by_cases hbb : b = base
      · subst hbb
        rw [Pairs.get?_put_self, Option.some.injEq] at hc
        subst hc
        refine ⟨by omega, fun j h2 hj => ?_⟩
        by_cases hjk : j = k
        · simp [hjk]
        · exact List.mem_cons_of_mem _ (hbelow j h2 (by omega))
      · rw [Pairs.get?_put_of_ne hbb] at hc
        obtain ⟨h1, hj⟩ := h.counted b c hc
        exact ⟨h1, fun j h2 hjc => List.mem_cons_of_mem _ (hj j h2 hjc)⟩

theorem Registry.Reflects.assign {r : Registry} {all bases given : List String}
    (h : r.Reflects all bases given) {base : String} (hall : base ∈ all) :
    Assigned all bases given base (r.assign base).1 ∧
    (r.assign base).2.Reflects all (bases ++ [base]) (given ++ [(r.assign base).1]) := by
  by_cases hb : base ∈ bases
  · exact h.assign_later hb
  · obtain ⟨hid, hr⟩ := h.assign_first hall hb
    refine ⟨by rwa [Assigned, if_neg hb], ?_⟩
    rwa [hid]

/-- The ids of some descriptors, in order. -/
def ids (ds : List Descriptor) : List String := ds.map (·.operationId)

theorem length_assignFrom (r : Registry) (ds : List Descriptor) :
    (assignFrom r ds).length = ds.length := by
  induction ds generalizing r with
  | nil => rfl
  | cons d ds ih => simp [assignFrom, ih]

theorem assignFrom_spec {r : Registry} {all bases given : List String}
    (h : r.Reflects all bases given) {ds : List Descriptor} (hall : ∀ d ∈ ds, d.operationId ∈ all)
    {i : Nat} {d e : Descriptor} (hd : ds[i]? = some d) (he : (assignFrom r ds)[i]? = some e) :
    e = { d with operationId := e.operationId } ∧
    Assigned all (bases ++ ids (ds.take i)) (given ++ ids ((assignFrom r ds).take i))
      d.operationId e.operationId := by
  induction ds generalizing r bases given i with
  | nil => simp at hd
  | cons x ds ih =>
    obtain ⟨hx, hr⟩ := h.assign (hall x (by simp))
    cases i with
    | zero =>
      simp only [List.getElem?_cons_zero, Option.some.injEq, assignFrom] at hd he
      subst hd he
      exact ⟨rfl, by simpa [ids] using hx⟩
    | succ i =>
      simp only [List.getElem?_cons_succ, assignFrom] at hd he
      have ht := ih hr (fun y hy => hall y (List.mem_cons_of_mem x hy)) hd he
      simpa [ids, assignFrom, List.append_assoc] using ht

theorem length_assign (ds : List Descriptor) : (assign ds).length = ds.length :=
  length_assignFrom _ ds

theorem assign_spec {ds : List Descriptor} {i : Nat} {d e : Descriptor} (hd : ds[i]? = some d)
    (he : (assign ds)[i]? = some e) :
    e = { d with operationId := e.operationId } ∧
    Assigned (ids ds) (ids (ds.take i)) (ids ((assign ds).take i))
      d.operationId e.operationId := by
  have hall : ∀ d ∈ ds, d.operationId ∈ ids ds := fun d hd => List.mem_map.mpr ⟨d, hd, rfl⟩
  have h := assignFrom_spec (Registry.reflects_start (ids ds)) hall hd he
  rwa [List.nil_append, List.nil_append] at h

theorem mem_ids_take {ds : List Descriptor} {i j : Nat} {d : Descriptor} (hij : i < j)
    (hd : ds[i]? = some d) : d.operationId ∈ ids (ds.take j) := by
  have hm : (ds.take j)[i]? = some d := by rw [List.getElem?_take, if_pos hij, hd]
  exact List.mem_map.mpr ⟨d, List.mem_of_getElem? hm, rfl⟩

theorem assigned_ne {ds : List Descriptor} {i j : Nat} {d d' e e' : Descriptor} (hij : i < j)
    (hd : ds[i]? = some d) (he : (assign ds)[i]? = some e)
    (hd' : ds[j]? = some d') (he' : (assign ds)[j]? = some e') :
    e.operationId ≠ e'.operationId := by
  have hi := (assign_spec hd he).2
  have hj := (assign_spec hd' he').2
  have hgiven := mem_ids_take hij he
  have hbase := mem_ids_take hij hd
  by_cases hlater : d'.operationId ∈ ids (ds.take j)
  · rw [Assigned, if_pos hlater] at hj
    obtain ⟨k, -, -, -, hfree, -⟩ := hj
    intro heq
    exact hfree (heq ▸ hgiven)
  · rw [Assigned, if_neg hlater] at hj
    by_cases hrep : d.operationId ∈ ids (ds.take i)
    -- A suffixed id is no id of the input, while `e'` keeps one.
    · rw [Assigned, if_pos hrep] at hi
      obtain ⟨k, -, -, hall, -, -⟩ := hi
      intro heq
      exact hall (List.mem_map.mpr ⟨d', List.mem_of_getElem? hd', by rw [heq, hj]⟩)
    · rw [Assigned, if_neg hrep] at hi
      intro heq
      rw [hi, hj] at heq
      exact hlater (heq ▸ hbase)

theorem getElem?_assign {ds : List Descriptor} {i : Nat} {e : Descriptor}
    (he : (assign ds)[i]? = some e) : ∃ d, ds[i]? = some d := by
  obtain ⟨hi, -⟩ := List.getElem?_eq_some_iff.mp he
  rw [length_assign] at hi
  exact ⟨ds[i], List.getElem?_eq_getElem hi⟩

theorem nodup_ids_assign (ds : List Descriptor) : (ids (assign ds)).Nodup := by
  rw [List.Nodup, ids, List.pairwise_map, List.pairwise_iff_getElem]
  intro i j hi hj hij
  have he := List.getElem?_eq_getElem hi
  have he' := List.getElem?_eq_getElem hj
  obtain ⟨d, hd⟩ := getElem?_assign he
  obtain ⟨d', hd'⟩ := getElem?_assign he'
  exact assigned_ne hij hd he hd' he'

theorem assign_of_nodup {ds : List Descriptor} (h : (ids ds).Nodup) : assign ds = ds := by
  refine List.ext_getElem (length_assign ds) ?_
  intro i he hd
  obtain ⟨hkeep, hid⟩ := assign_spec (List.getElem?_eq_getElem hd) (List.getElem?_eq_getElem he)
  have hfirst : ds[i].operationId ∉ ids (ds.take i) := by
    intro hm
    obtain ⟨d, hm, heq⟩ := List.mem_map.mp hm
    obtain ⟨j, hj, rfl⟩ := List.mem_take_iff_getElem.mp hm
    have hne := List.pairwise_iff_getElem.mp (List.pairwise_map.mp h) j i (by omega) hd (by omega)
    exact hne heq
  rw [Assigned, if_neg hfirst] at hid
  rw [hkeep, hid]

end RouteBook.OperationId
