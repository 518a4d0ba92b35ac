import RouteBook.OpenApi
import RouteBook.Proofs.Value

/-! The operations of an API document: each has its own path and method, and those that were left
out are accounted for. -/
namespace RouteBook.OpenApi

/-- The descriptors that have found a place, in the order of the places. -/
def Board.placed (b : Board) : List Descriptor := (b.paths.flatMap Prod.snd).map Prod.snd

structure Board.Reflects (b : Board) (ds : List Descriptor) : Prop where
  distinct : (Pairs.keys b.paths).Nodup
  methods : ∀ path ms, Pairs.get? path b.paths = some ms →
    (Pairs.keys ms).Nodup ∧ ∀ m ∈ ms, m.2.path = path ∧ m.2.method.key = m.1
  listed : ∀ d ∈ ds, ∃ ms, Pairs.get? d.path b.paths = some ms ∧ d.method.key ∈ Pairs.keys ms
  perm : (b.placed ++ b.skipped).Perm ds

theorem Board.reflects_start : Board.Reflects {} [] :=
  ⟨by simp [Pairs.keys], by simp [Pairs.get?], by simp, by simp [Board.placed]⟩

theorem Board.Reflects.skip {b : Board} {ds : List Descriptor} (h : b.Reflects ds)
    {d : Descriptor} (hd : d.method.key ∈ Pairs.keys ((Pairs.get? d.path b.paths).getD [])) :
    Board.Reflects { b with skipped := d :: b.skipped } (ds ++ [d]) := by
  refine ⟨h.distinct, h.methods, ?_, ?_⟩
  · intro x hx
    rcases List.mem_append.mp hx with hx | hx
    · exact h.listed x hx
    · rw [List.mem_singleton.mp hx]
      cases hg : Pairs.get? d.path b.paths with
      | none => simp [hg, Pairs.keys] at hd
      | some ms => exact ⟨ms, rfl, by simpa [hg] using hd⟩
  · exact (List.perm_middle.trans (h.perm.cons d)).trans (List.perm_append_singleton d ds).symm

theorem Board.Reflects.place {b : Board} {ds : List Descriptor} (h : b.Reflects ds)
    {d : Descriptor} (hd : d.method.key ∉ Pairs.keys ((Pairs.get? d.path b.paths).getD [])) :
    Board.Reflects { b with
      paths := Pairs.put d.path ((Pairs.get? d.path b.paths).getD [] ++ [(d.method.key, d)])
        b.paths } (ds ++ [d]) := by
  have hput := Pairs.put_of_get?_none (Pairs.get?_eq_none_iff.mpr hd) d
  have hold : (Pairs.keys ((Pairs.get? d.path b.paths).getD [])).Nodup ∧
      ∀ m ∈ (Pairs.get? d.path b.paths).getD [], m.2.path = d.path ∧ m.2.method.key = m.1 := by
    cases hg : Pairs.get? d.path b.paths with
    | none => simp [Pairs.keys]
    | some ms => exact h.methods d.path ms hg
  refine ⟨Pairs.nodup_keys_put h.distinct _ _, ?_, ?_, ?_⟩
  · intro path ms hg
    by_cases hp : path = d.path
    · subst hp
      rw [Pairs.get?_put_self, Option.some.injEq] at hg
      subst hg
      refine ⟨hput ▸ Pairs.nodup_keys_put hold.1 d.method.key d, ?_⟩
      intro m hm
      rcases List.mem_append.mp hm with hm | hm
      · exact hold.2 m hm
      · rw [List.mem_singleton.mp hm]
        exact ⟨rfl, rfl⟩
    · rw [Pairs.get?_put_of_ne hp] at hg
      exact h.methods path ms hg
  · intro x hx
    rcases List.mem_append.mp hx with hx | hx
    · obtain ⟨ms, hg, hk⟩ := h.listed x hx
      by_cases hp : x.path = d.path
      · rw [hp] at hg ⊢
        refine ⟨_, Pairs.get?_put_self _ _ _, ?_⟩
        rw [hg, Option.getD_some, Pairs.keys, List.map_append]
        exact List.mem_append_left _ hk
      · exact ⟨ms, by rw [Pairs.get?_put_of_ne hp, hg], hk⟩
    · rw [List.mem_singleton.mp hx]
      exact ⟨_, Pairs.get?_put_self _ _ _, by simp [Pairs.keys]⟩
  · have hp := Pairs.flatMap_put_perm (fun _ m => m.2) d.path (d.method.key, d) b.paths
    rw [← List.map_flatMap, ← List.map_flatMap] at hp
    exact ((hp.append_right b.skipped).trans (h.perm.cons d)).trans
      (List.perm_append_singleton d ds).symm

theorem Board.Reflects.add {b : Board} {ds : List Descriptor} (h : b.Reflects ds)
    (d : Descriptor) : (b.add d).Reflects (ds ++ [d]) := by
  unfold Board.add
  by_cases hc : Pairs.contains d.method.key ((Pairs.get? d.path b.paths).getD []) = true
  · simp only [hc, if_true]
    exact h.skip (Pairs.contains_iff.mp hc)
  · simp only [hc]
    exact h.place (mt Pairs.contains_iff.mpr hc)

theorem Board.Reflects.addAll {b : Board} {ds : List Descriptor} (h : b.Reflects ds)
    (more : List Descriptor) : (more.foldl Board.add b).Reflects (ds ++ more) := by
  induction more generalizing b ds with
  | nil => simpa using h
  | cons d more ih => simpa using ih (h.add d)

theorem reflects_fill (ds : List Descriptor) : (fill ds).Reflects ds :=
  Board.reflects_start.addAll ds

theorem mem_of_mem_row {ds : List Descriptor} {path : String} {ms : List (String × Descriptor)}
    {m : String × Descriptor} (hp : (path, ms) ∈ (fill ds).paths) (hm : m ∈ ms) :
    m.2 ∈ ds ∧ m.2.path = path ∧ m.2.method.key = m.1 := by
  have h := reflects_fill ds
  have hplaced : m.2 ∈ (fill ds).placed :=
    List.mem_map.mpr ⟨m, List.mem_flatMap.mpr ⟨_, hp, hm⟩, rfl⟩
  exact ⟨h.perm.subset (List.mem_append_left _ hplaced),
    (h.methods path ms (Pairs.get?_of_mem h.distinct hp)).2 m hm⟩

structure Operation where
  path : String
  method : String
  content : Value

def members : Value → List (Value × Value)
  | .map entries => entries
  | _ => []

def field? (name : String) (v : Value) : Option Value := Pairs.get? (.str name) (members v)

/-- The operations that a document lists under a path. -/
def operationsAt : Value × Value → List Operation
  | (.str path, item) => (members item).filterMap fun
    | (.str method, content) => some ⟨path, method, content⟩
    | _ => none
  | _ => []

/-- The operations of a document, in order. -/
def operations (doc : Value) : List Operation :=
  ((field? "paths" doc).elim [] members).flatMap operationsAt

def operationId? (content : Value) : Option String :=
  match field? "operationId" content with
  | some (.str id) => some id
  | _ => none

theorem field?_object (name : String) (fields : List (String × Value)) :
    field? name (object fields) = Pairs.get? name fields :=
  Value.get?_entries name fields

theorem operationsAt_object (path : String) (fields : List (String × Value)) :
    operationsAt (.str path, object fields) = fields.map fun p => ⟨path, p.1, p.2⟩ := by
  simp only [operationsAt, members, object, List.filterMap_map]
  exact congrFun List.filterMap_eq_map' fields

theorem field?_paths_build (ds : List Descriptor) (config : RenderConfig) :
    field? "paths" (build ds config).1 = some (pathsValue (fill ds).paths) := by
  simp [build, field?_object, Pairs.get?]

/-- The operations of a document are those of the places on the board. -/
theorem operations_build (ds : List Descriptor) (config : RenderConfig) :
    operations (build ds config).1 =
      (fill ds).paths.flatMap fun p => p.2.map fun m => ⟨p.1, m.1, operation m.2⟩ := by
  rw [operations, field?_paths_build, Option.elim_some, pathsValue, object, members, List.map_map,
    List.flatMap_map]
  refine congrArg (List.flatMap · _) (funext fun p => ?_)
  simp [operationsAt_object]

/-- A document has an operation for each descriptor and for nothing else. -/
theorem exists_operation_iff (ds : List Descriptor) (config : RenderConfig)
    (path method : String) :
    (∃ o ∈ operations (build ds config).1, o.path = path ∧ o.method = method) ↔
      ∃ d ∈ ds, d.path = path ∧ d.method.key = method := by
  rw [operations_build]
  constructor
  · rintro ⟨o, ho, rfl, rfl⟩
    obtain ⟨p, hp, ho⟩ := List.mem_flatMap.mp ho
    obtain ⟨m, hm, rfl⟩ := List.mem_map.mp ho
    exact ⟨m.2, mem_of_mem_row hp hm⟩
  · rintro ⟨d, hd, rfl, rfl⟩
    obtain ⟨ms, hg, hk⟩ := (reflects_fill ds).listed d hd
    obtain ⟨m, hm, hkey⟩ := List.mem_map.mp hk
    refine ⟨⟨d.path, m.1, operation m.2⟩, ?_, rfl, hkey⟩
    exact List.mem_flatMap.mpr
      ⟨_, Pairs.mem_of_get? hg, List.mem_map.mpr ⟨m, hm, rfl⟩⟩

theorem operationId?_operation (d : Descriptor) :
    operationId? (operation d) = some d.operationId := by
  simp [operationId?, operation, field?_object, Pairs.get?]

theorem operationIds_build (ds : List Descriptor) (config : RenderConfig) :
    (operations (build ds config).1).map (operationId? ·.content) =
      ((fill ds).placed.map (·.operationId)).map some := by
  rw [operations_build, Board.placed]
  simp [List.map_flatMap, operationId?_operation, Function.comp_def]

end RouteBook.OpenApi
