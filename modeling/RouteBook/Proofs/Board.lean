import RouteBook.Proofs.OpenApi

/-! Which descriptor holds a place of the API document. Main statement: paths and methods stand in
the order in which they are first seen, the first descriptor for a path and method holds the place,
and each later one is reported, in list order. -/
namespace RouteBook.OpenApi

def methodKey (d : Descriptor) : String := Text.lower d.method.name

theorem methodKey_eq (d : Descriptor) : methodKey d = d.method.key := by
  have h (m : Method) : Text.lower m.name = m.key := by cases m <;> decide +kernel
  exact h d.method

def belongs (path key : String) (d : Descriptor) : Bool := d.path == path && methodKey d == key

/-- The descriptors for whose path and method there is an earlier one. -/
def repeated (ds : List Descriptor) : List Descriptor :=
  (ds.zipIdx.filter fun p => (ds.take p.2).any (belongs p.1.path (methodKey p.1))).map Prod.fst

theorem repeated_concat (ds : List Descriptor) (d : Descriptor) :
    repeated (ds ++ [d]) =
      repeated ds ++ if ds.any (belongs d.path (methodKey d)) then [d] else [] := by
  have hold : (ds.zipIdx.filter fun p =>
      ((ds ++ [d]).take p.2).any (belongs p.1.path (methodKey p.1))) =
      ds.zipIdx.filter fun p => (ds.take p.2).any (belongs p.1.path (methodKey p.1)) := by
    refine List.filter_congr fun p hp => ?_
    have hle : p.2 ≤ ds.length := Nat.le_of_lt (List.snd_lt_of_mem_zipIdx hp)
    rw [List.take_append_of_le_length hle]
  rw [repeated, List.zipIdx_append, List.filter_append, hold, List.map_append]
  refine congrArg (repeated ds ++ ·) ?_
  by_cases hd : ds.any (belongs d.path (methodKey d)) = true <;> simp [hd]

def Board.row (b : Board) (path : String) : List (String × Descriptor) :=
  (Pairs.get? path b.paths).getD []

structure Board.Keeps (b : Board) (ds : List Descriptor) : Prop where
  paths : Pairs.keys b.paths = (ds.map (·.path)).eraseDups
  methods : ∀ path, Pairs.keys (b.row path) =
    ((ds.filter (·.path == path)).map methodKey).eraseDups
  first : ∀ path key, Pairs.get? key (b.row path) = ds.find? (belongs path key)
  skipped : b.skipped.reverse = repeated ds

theorem Board.keeps_start : Board.Keeps {} [] := ⟨rfl, fun _ => rfl, fun _ _ => rfl, rfl⟩

section Step
variable {b : Board} {ds : List Descriptor} {d : Descriptor}

/-- A place is taken if an earlier descriptor belongs there. -/
theorem Board.Keeps.taken_iff (h : b.Keeps ds) :
    Pairs.contains d.method.key (b.row d.path) = true ↔
      ds.any (belongs d.path (methodKey d)) = true := by
  rw [Pairs.contains, h.first, List.find?_isSome, List.any_eq_true, methodKey_eq]

theorem Board.Keeps.skip (h : b.Keeps ds) (hd : ds.any (belongs d.path (methodKey d)) = true) :
    Board.Keeps { b with skipped := d :: b.skipped } (ds ++ [d]) := by
  obtain ⟨e, he, hbelongs⟩ := List.any_eq_true.mp hd
  obtain ⟨hpath, hkey⟩ : e.path = d.path ∧ methodKey e = methodKey d := by
    simpa [belongs] using hbelongs
  refine ⟨?_, fun path => ?_, fun path key => ?_, ?_⟩
  · have hmem : d.path ∈ ds.map (·.path) := List.mem_map.mpr ⟨e, he, hpath⟩
    rw [List.map_append, List.map_singleton, Pairs.eraseDups_concat, if_pos hmem]
    exact h.paths
  · by_cases hp : d.path = path
    · have hmem : methodKey d ∈ (ds.filter (·.path == path)).map methodKey :=
        List.mem_map.mpr ⟨e, List.mem_filter.mpr ⟨he, by simp [hpath, hp]⟩, hkey⟩
      rw [List.filter_append, List.filter_cons_of_pos (by simpa using hp), List.filter_nil,
        List.map_append, List.map_singleton, Pairs.eraseDups_concat, if_pos hmem]
      exact h.methods path
    · rw [List.filter_append, List.filter_cons_of_neg (by simpa using hp), List.filter_nil,
        List.append_nil]
      exact h.methods path
  · rw [List.find?_append]
    by_cases hb : belongs path key d = true
    · obtain ⟨rfl, rfl⟩ : d.path = path ∧ methodKey d = key := by simpa [belongs] using hb
      obtain ⟨x, hx⟩ := Option.isSome_iff_exists.mp (List.find?_isSome.mpr ⟨e, he, hbelongs⟩)
      rw [hx, Option.some_or, ← hx]
      exact h.first _ _
    · rw [List.find?_cons_of_neg hb, List.find?_nil, Option.or_none]
      exact h.first path key
  · rw [repeated_concat, if_pos hd, List.reverse_cons, h.skipped]

theorem Board.Keeps.place (h : b.Keeps ds) (hd : ¬ ds.any (belongs d.path (methodKey d)) = true) :
    Board.Keeps { b with
      paths := Pairs.put d.path (b.row d.path ++ [(d.method.key, d)]) b.paths } (ds ++ [d]) := by
  have hfresh (e : Descriptor) (he : e ∈ ds) (hp : e.path = d.path) : methodKey e ≠ methodKey d :=
    fun hk => hd (List.any_eq_true.mpr ⟨e, he, by simp [belongs, hp, hk]⟩)
  have hrow (path : String) : Board.row { b with
      paths := Pairs.put d.path (b.row d.path ++ [(d.method.key, d)]) b.paths } path =
        b.row path ++ if d.path == path then [(d.method.key, d)] else [] :=
    Pairs.row_put d.path path (d.method.key, d) b.paths
  refine ⟨?_, fun path => ?_, fun path key => ?_, ?_⟩
  · rw [Pairs.keys_put, h.paths, List.map_append, List.map_singleton, Pairs.eraseDups_concat]
    simp only [List.mem_eraseDups]
  · rw [hrow, Pairs.keys, List.map_append, ← Pairs.keys, h.methods, List.filter_append,
      List.map_append]
    by_cases hp : d.path = path
    · have hnew : methodKey d ∉ (ds.filter (·.path == path)).map methodKey := by
        intro hmem
        obtain ⟨e, he, hk⟩ := List.mem_map.mp hmem
        obtain ⟨he, hpath⟩ := List.mem_filter.mp he
        exact hfresh e he (by simpa [hp] using hpath) hk
      rw [if_pos (by simpa using hp), List.filter_cons_of_pos (by simpa using hp), List.filter_nil,
        List.map_singleton, List.map_singleton, Pairs.eraseDups_concat, if_neg hnew, methodKey_eq]
    · simp [hp]
  · rw [hrow, Pairs.get?_append, h.first, List.find?_append]
    refine congrArg (Option.or _) ?_
    by_cases hp : d.path = path
    · by_cases hk : d.method.key = key <;> simp [Pairs.get?, belongs, methodKey_eq, hp, hk]
    · simp [Pairs.get?, belongs, hp]
  · rw [repeated_concat, if_neg hd, List.append_nil]
    exact h.skipped

end Step

theorem Board.Keeps.add {b : Board} {ds : List Descriptor} (h : b.Keeps ds) (d : Descriptor) :
    (b.add d).Keeps (ds ++ [d]) := by
  rw [Board.add]
  change Board.Keeps (if Pairs.contains d.method.key (b.row d.path) = true then _ else _) _
  split
  · next hc => exact h.skip (h.taken_iff.mp hc)
  · next hc => exact h.place (mt h.taken_iff.mpr hc)

theorem Board.Keeps.addAll {b : Board} {ds : List Descriptor} (h : b.Keeps ds)
    (more : List Descriptor) : (more.foldl Board.add b).Keeps (ds ++ more) := by
  induction more generalizing b ds with
  | nil => simpa using h
  | cons d more ih => simpa using ih (h.add d)

theorem keeps_fill (ds : List Descriptor) : (fill ds).Keeps ds := Board.keeps_start.addAll ds

theorem row_of_mem {ds : List Descriptor} {path : String} {ms : List (String × Descriptor)}
    (h : (path, ms) ∈ (fill ds).paths) : (fill ds).row path = ms := by
  have hd : (Pairs.keys (fill ds).paths).Nodup := by
    rw [(keeps_fill ds).paths]
    exact Pairs.nodup_eraseDups _
  rw [Board.row, Pairs.get?_of_mem hd h, Option.getD_some]

theorem methods_ne_nil {ds : List Descriptor} {path : String} {ms : List (String × Descriptor)}
    (h : (path, ms) ∈ (fill ds).paths) : ms ≠ [] := by
  have hpath : path ∈ Pairs.keys (fill ds).paths := List.mem_map_of_mem h
  rw [(keeps_fill ds).paths, List.mem_eraseDups] at hpath
  obtain ⟨d, hd, hp⟩ := List.mem_map.mp hpath
  have hkey : methodKey d ∈ Pairs.keys ms := by
    rw [← row_of_mem h, (keeps_fill ds).methods, List.mem_eraseDups]
    exact List.mem_map_of_mem (List.mem_filter.mpr ⟨hd, by simpa using hp⟩)
  obtain ⟨m, hm, -⟩ := List.mem_map.mp hkey
  exact List.ne_nil_of_mem hm

/-- The paths of a document are those of the descriptors and the methods of a path those of its
descriptors, both in the order in which they are first seen. Under a path and a method stands the
operation of the first descriptor that belongs there. Each later one is reported, in list order. -/
theorem first_descriptor_holds_place (ds : List Descriptor) (config : RenderConfig) :
    ∃ rows : List (String × List (String × Value)),
      field? "paths" (build ds config).1 = some (object (rows.map fun r => (r.1, object r.2))) ∧
      Pairs.keys rows = (ds.map (·.path)).eraseDups ∧
      (∀ r ∈ rows, r.2 ≠ [] ∧
        Pairs.keys r.2 = ((ds.filter (·.path == r.1)).map methodKey).eraseDups ∧
        ∀ key, Pairs.get? key r.2 = (ds.find? (belongs r.1 key)).map operation) ∧
      (build ds config).2 = (repeated ds).map fun d =>
        { level := .warning, source := .apiDocument,
          message := "Duplicate route " ++ d.method.name ++ " " ++ d.path ++ " in " ++ d.file ++
            " ignored in OpenAPI output" } := by
  have h := keeps_fill ds
  refine ⟨(fill ds).paths.map fun p => (p.1, p.2.map fun m => (m.1, operation m.2)), ?_, ?_, ?_, ?_⟩
  · rw [field?_paths_build, pathsValue, List.map_map]
    rfl
  · rw [Pairs.keys_map, h.paths]
  · intro r hr
    obtain ⟨⟨path, ms⟩, hp, rfl⟩ := List.mem_map.mp hr
    refine ⟨by simpa using methods_ne_nil hp, ?_, fun key => ?_⟩
    · rw [Pairs.keys_map, ← h.methods, row_of_mem hp]
    · rw [Pairs.get?_map, ← h.first, row_of_mem hp]
  · rw [← h.skipped]
    rfl

/-- Descriptors of two paths in turn, with a path and a method that come again. -/
def interleaved : List Descriptor :=
  let route method path file : Descriptor :=
    { method, path, file, summary := "", responses := [], operationId := file }
  [route .post "/b" "1", route .get "/a" "2", route .get "/b" "3", route .post "/b" "4",
    route .get "/a" "5", route .put "/a" "6"]

theorem first_descriptor_holds_place_interleaved :
    ∃ rows : List (String × List (String × Value)), Pairs.keys rows = ["/b", "/a"] ∧
      (∃ r ∈ rows, r.1 = "/b" ∧ r.2 ≠ [] ∧ Pairs.keys r.2 = ["post", "get"] ∧
        (Pairs.get? "post" r.2).bind operationId? = some "1") ∧
      (build interleaved {}).2.map (·.message) =
        ["Duplicate route POST /b in 4 ignored in OpenAPI output",
          "Duplicate route GET /a in 5 ignored in OpenAPI output"] := by
  obtain ⟨rows, -, hkeys, hrows, hreports⟩ := first_descriptor_holds_place interleaved {}
  have hpaths : Pairs.keys rows = ["/b", "/a"] := by
    rw [hkeys]
    decide
  have hb : "/b" ∈ Pairs.keys rows := by simp [hpaths]
  obtain ⟨r, hr, hpath⟩ := List.mem_map.mp hb
  obtain ⟨hne, hmethods, hfirst⟩ := hrows r hr
  refine ⟨rows, hpaths, ⟨r, hr, hpath, hne, ?_, ?_⟩, ?_⟩
  · rw [hmethods, hpath]
    decide +kernel
  · rw [hfirst, hpath]
    decide +kernel
  · rw [hreports]
    decide +kernel

end RouteBook.OpenApi
