import RouteBook.Grouping
import RouteBook.Proofs.Pairs

/-! Grouping loses no descriptor: each is listed once for every tag it has. Main statement: there is
one group for each tag, in the order in which the tags are first seen, and it lists the descriptors
with this tag in their order. -/
namespace RouteBook.Grouping

def listings (d : Descriptor) : List Descriptor := (tagsOf d).map fun _ => d

/-- Every descriptor with every tag that it has; one without a tag counts as untagged. -/
def taggings (ds : List Descriptor) : List (Descriptor × String) :=
  ds.flatMap fun d =>
    if d.tags = [] then [(d, untagged)] else d.tags.map fun tag => (d, tag)

theorem tagsOf_ne_nil (d : Descriptor) : tagsOf d ≠ [] := by
  unfold tagsOf
  split
  · simp
  · simpa using ‹¬ d.tags.isEmpty = true›

theorem mem_listings (d : Descriptor) : d ∈ listings d := by
  obtain ⟨tag, tags, ht⟩ := List.exists_cons_of_ne_nil (tagsOf_ne_nil d)
  simp [listings, ht]

theorem taggings_eq (ds : List Descriptor) :
    taggings ds = ds.flatMap fun d => (tagsOf d).map fun tag => (d, tag) := by
  refine congrArg (List.flatMap · ds) (funext fun d => ?_)
  cases ht : d.tags <;> simp [tagsOf, ht]

structure Holds (groups : Groups) (es : List (Descriptor × String)) : Prop where
  tags : Pairs.keys groups = (es.map Prod.snd).eraseDups
  members : ∀ tag, (Pairs.get? tag groups).getD [] = (es.filter (·.2 == tag)).map Prod.fst
  perm : (groups.flatMap fun g => g.2.map fun d => (d, g.1)).Perm es

theorem holds_nil : Holds [] [] := ⟨rfl, fun _ => rfl, .nil⟩

theorem Holds.add {groups : Groups} {es : List (Descriptor × String)} (h : Holds groups es)
    (d : Descriptor) (tag : String) : Holds (add groups tag d) (es ++ [(d, tag)]) := by
  refine ⟨?_, fun t => ?_, ?_⟩
  · rw [Grouping.add, Pairs.keys_put, h.tags, List.map_append, List.map_singleton,
      Pairs.eraseDups_concat]
    simp only [List.mem_eraseDups]
  · rw [Grouping.add, Pairs.row_put, h.members, List.filter_append, List.map_append]
    by_cases ht : tag = t <;> simp [ht]
  · have hadd := Pairs.flatMap_put_perm (fun t d => (d, t)) tag d groups
    exact (hadd.trans (h.perm.cons (d, tag))).trans (List.perm_append_singleton (d, tag) es).symm

theorem Holds.addAll {groups : Groups} {es : List (Descriptor × String)} (h : Holds groups es)
    (more : List (Descriptor × String)) :
    Holds (more.foldl (fun g e => Grouping.add g e.2 e.1) groups) (es ++ more) := by
  induction more generalizing groups es with
  | nil => simpa using h
  | cons e more ih => simpa using ih (h.add e.1 e.2)

theorem holds_collect (ds : List Descriptor) : Holds (collect ds) (taggings ds) := by
  have hcollect : collect ds = (taggings ds).foldl (fun g e => add g e.2 e.1) [] := by
    rw [taggings_eq, List.foldl_flatMap]
    simp only [List.foldl_map]
    rfl
  rw [hcollect]
  exact holds_nil.addAll (taggings ds)

theorem byTag_perm_collect (ds : List Descriptor) : (byTag ds).Perm (collect ds) := by
  have h := List.filter_append_perm (fun g : String × List Descriptor => g.1 != untagged)
    (collect ds)
  simpa [byTag, bne, Function.comp_def] using h

/-- All groups together are the taggings in another order. -/
theorem taggings_perm (ds : List Descriptor) :
    ((byTag ds).flatMap fun g => g.2.map fun d => (d, g.1)).Perm (taggings ds) :=
  ((byTag_perm_collect ds).flatMap_right _).trans (holds_collect ds).perm

theorem byTag_perm (ds : List Descriptor) :
    ((byTag ds).flatMap Prod.snd).Perm (ds.flatMap listings) := by
  have hgroups : ((byTag ds).flatMap fun g => g.2.map fun d => (d, g.1)).map Prod.fst =
      (byTag ds).flatMap Prod.snd := by
    simp [List.map_flatMap, Function.comp_def]
  have hall : (taggings ds).map Prod.fst = ds.flatMap listings := by
    rw [taggings_eq, List.map_flatMap]
    simp only [List.map_map, Function.comp_def]
    rfl
  rw [← hgroups, ← hall]
  exact (taggings_perm ds).map Prod.fst

theorem exists_group {ds : List Descriptor} {d : Descriptor} (hd : d ∈ ds) :
    ∃ g ∈ byTag ds, d ∈ g.2 := by
  refine List.mem_flatMap.mp ((byTag_perm ds).symm.subset ?_)
  exact List.mem_flatMap.mpr ⟨d, hd, mem_listings d⟩

theorem keys_filter (p : String → Bool) (groups : Groups) :
    Pairs.keys (groups.filter fun g => p g.1) = (Pairs.keys groups).filter p := by
  rw [Pairs.keys, Pairs.keys, List.filter_map]
  rfl

/-- The tags of the groups: as they are first seen, but the untagged descriptors come last. -/
theorem keys_byTag (ds : List Descriptor) :
    Pairs.keys (byTag ds) =
      ((taggings ds).map Prod.snd).eraseDups.filter (· != untagged) ++
        if untagged ∈ (taggings ds).map Prod.snd then [untagged] else [] := by
  have hlast : ((taggings ds).map Prod.snd).eraseDups.filter (· == untagged) =
      if untagged ∈ (taggings ds).map Prod.snd then [untagged] else [] := by
    rw [List.filter_beq]
    split
    · next hmem =>
      rw [List.count_eq_one_of_mem (Pairs.nodup_eraseDups _) (List.mem_eraseDups.mpr hmem)]
      rfl
    · next hmem =>
      rw [List.count_eq_zero_of_not_mem fun h => hmem (List.mem_eraseDups.mp h)]
      rfl
  have hsplit : Pairs.keys (byTag ds) =
      (Pairs.keys (collect ds)).filter (· != untagged) ++
        (Pairs.keys (collect ds)).filter (· == untagged) := by
    rw [← keys_filter, ← keys_filter]
    exact List.map_append
  rw [hsplit, (holds_collect ds).tags, hlast]

theorem nodup_keys_collect (ds : List Descriptor) : (Pairs.keys (collect ds)).Nodup := by
  rw [(holds_collect ds).tags]
  exact Pairs.nodup_eraseDups _

theorem nodup_keys_byTag (ds : List Descriptor) : (Pairs.keys (byTag ds)).Nodup :=
  ((byTag_perm_collect ds).map Prod.fst).nodup_iff.mpr (nodup_keys_collect ds)

/-- A group lists the descriptors with its tag in their order. -/
theorem members_byTag {ds : List Descriptor} {g : String × List Descriptor} (h : g ∈ byTag ds) :
    g.2 = ((taggings ds).filter (·.2 == g.1)).map Prod.fst := by
  have hget : Pairs.get? g.1 (collect ds) = some g.2 :=
    Pairs.get?_of_mem (nodup_keys_collect ds) ((byTag_perm_collect ds).mem_iff.mp h)
  rw [← (holds_collect ds).members, hget, Option.getD_some]

theorem mem_keys_byTag {ds : List Descriptor} {tag : String} :
    tag ∈ Pairs.keys (byTag ds) ↔ tag ∈ (taggings ds).map Prod.snd := by
  rw [Pairs.keys, ((byTag_perm_collect ds).map Prod.fst).mem_iff, ← Pairs.keys,
    (holds_collect ds).tags, List.mem_eraseDups]

theorem members_ne_nil {ds : List Descriptor} {g : String × List Descriptor} (h : g ∈ byTag ds) :
    g.2 ≠ [] := by
  obtain ⟨e, he, htag⟩ := List.mem_map.mp (mem_keys_byTag.mp (List.mem_map_of_mem h))
  have hmem : e ∈ (taggings ds).filter (·.2 == g.1) := List.mem_filter.mpr ⟨he, by simpa using htag⟩
  rw [members_byTag h]
  exact List.ne_nil_of_mem (List.mem_map_of_mem hmem)

/-- There is one group for each tag, none of them empty, in the order in which the tags are first
seen and with the untagged descriptors last. It lists, in their order, the descriptors once for each
time they have the tag, so that all groups together lose nothing and repeat nothing. -/
theorem groups_hold_every_tagging (ds : List Descriptor) :
    (Pairs.keys (byTag ds)).Nodup ∧ (∀ g ∈ byTag ds, g.2 ≠ []) ∧
    Pairs.keys (byTag ds) =
      ((taggings ds).map Prod.snd).eraseDups.filter (· != untagged) ++
        (if untagged ∈ (taggings ds).map Prod.snd then [untagged] else []) ∧
    (∀ g ∈ byTag ds, g.2 = ((taggings ds).filter (·.2 == g.1)).map Prod.fst) ∧
    ((byTag ds).flatMap fun g => g.2.map fun d => (d, g.1)).Perm (taggings ds) :=
  ⟨nodup_keys_byTag ds, fun _ => members_ne_nil, keys_byTag ds, fun _ => members_byTag,
    taggings_perm ds⟩

/-- Descriptors with no tag, with a repeated one, with an empty one and with the name of those that
have none. -/
def tangled : List Descriptor :=
  let route path tags : Descriptor :=
    { method := .get, path, summary := "", responses := [], tags, operationId := "" }
  [route "/a" [], route "/b" ["x", "", "x"], route "/c" ["untagged", "y"], route "/d" ["", "x"]]

theorem groups_hold_every_tagging_tangled :
    Pairs.keys (byTag tangled) = ["x", "", "y", "untagged"] ∧
    (byTag tangled).map (fun g => g.2.map (·.path)) =
      [["/b", "/b", "/d"], ["/b", "/d"], ["/c"], ["/a", "/c"]] ∧
    ∃ g ∈ byTag tangled, g.1 = "x" ∧ g.2 ≠ [] ∧
      g.2 = ((taggings tangled).filter (·.2 == "x")).map Prod.fst := by
  obtain ⟨-, hne, hkeys, hmembers, -⟩ := groups_hold_every_tagging tangled
  have hx : "x" ∈ Pairs.keys (byTag tangled) := by rw [hkeys]; decide
  obtain ⟨g, hg, htag⟩ := List.mem_map.mp hx
  exact ⟨by rw [hkeys]; decide, by decide, g, hg, htag, hne g hg, htag ▸ hmembers g hg⟩

end RouteBook.Grouping
