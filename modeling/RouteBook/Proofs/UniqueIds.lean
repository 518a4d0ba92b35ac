import RouteBook.Proofs.Extraction
import RouteBook.Proofs.OpenApi
import RouteBook.Proofs.OperationId

/-! Operation ids are unique, from the descriptors of a list to the document of a project. -/
namespace RouteBook.OperationId

theorem nodup_placed {ds : List Descriptor} (h : (ids ds).Nodup) :
    (ids (OpenApi.fill ds).placed).Nodup := by
  have hp := ((OpenApi.reflects_fill ds).perm.map Descriptor.operationId).nodup_iff.mpr h
  rw [List.map_append] at hp
  exact (List.nodup_append.mp hp).1

/-- Every descriptor keeps its place and all but its id; the first one with an id keeps it, and a
later one gets the least suffix that is free. So no id is given twice, ids that were kept apart
stay as they are, and the operations of an extracted project have ids of their own. -/
theorem assigned_ids_are_unique (ds : List Descriptor) :
    (assign ds).length = ds.length ∧
    (ids (assign ds)).Nodup ∧
    (∀ i d e, ds[i]? = some d → (assign ds)[i]? = some e →
      e = { d with operationId := e.operationId } ∧
      (d.operationId ∉ ids (ds.take i) → e.operationId = d.operationId) ∧
      (d.operationId ∈ ids (ds.take i) → ∃ k, 2 ≤ k ∧
        e.operationId = suffixed d.operationId k ∧
        e.operationId ∉ ids ds ∧ e.operationId ∉ ids ((assign ds).take i) ∧
        ∀ j, 2 ≤ j → j < k → suffixed d.operationId j ∈ ids ds ∨
          suffixed d.operationId j ∈ ids ((assign ds).take i))) ∧
    assign (assign ds) = assign ds ∧
    (∀ fs files r config, (Extraction.survey fs files).result = .ok r →
      ∃ names : List String, names.Nodup ∧
        (OpenApi.operations (OpenApi.build r.descriptors config).1).map
          (OpenApi.operationId? ·.content) = names.map some) := by
  refine ⟨length_assign ds, nodup_ids_assign ds, ?_, assign_of_nodup (nodup_ids_assign ds), ?_⟩
  · intro i d e hd he
    obtain ⟨hkeep, hid⟩ := assign_spec hd he
    refine ⟨hkeep, fun hfirst => ?_, fun hlater => ?_⟩
    · rwa [Assigned, if_neg hfirst] at hid
    · rwa [Assigned, if_pos hlater] at hid
  · intro fs files r config hr
    refine ⟨_, ?_, OpenApi.operationIds_build r.descriptors config⟩
    rw [Extraction.descriptors_of_result hr]
    exact nodup_placed (nodup_ids_assign _)

/-- A descriptor of which only the id matters. -/
def sample (id : String) : Descriptor :=
  { method := .get, path := "/", summary := "", responses := [], operationId := id }

/-- The descriptor of `b.get('/')` in a file of its own. -/
def sampleRoute : Descriptor :=
  { method := .get, path := "/", file := "b.js", summary := "GET /",
    responses := Endpoint.defaultResponses, operationId := "get_" }

/-- An id that is repeated skips the suffix of a later descriptor. -/
theorem assigned_ids_skip_later_id :
    (ids ([sample "a", sample "a", sample "a_2"].take 1) = ["a"] ∧
      ∃ k, 2 ≤ k ∧ "a_3" = suffixed "a" k ∧
        "a_3" ∉ ids [sample "a", sample "a", sample "a_2"] ∧ "a_3" ∉ ids [sample "a"] ∧
        ∀ j, 2 ≤ j → j < k → suffixed "a" j ∈ ids [sample "a", sample "a", sample "a_2"] ∨
          suffixed "a" j ∈ ids [sample "a"]) ∧
    (∃ r, (Extraction.survey Extraction.sampleFiles ["b.js"]).result = .ok r ∧
      ∃ names : List String, names.Nodup ∧
        (OpenApi.operations (OpenApi.build r.descriptors {}).1).map
          (OpenApi.operationId? ·.content) = names.map some) := by
  have hout : assign [sample "a", sample "a", sample "a_2"] =
      [sample "a", sample "a_3", sample "a_2"] := by decide
  have hsource : Extraction.fromSource Extraction.plainText "b.js" = .ok [sampleRoute] := by
    decide +kernel
  have hr : (Extraction.survey Extraction.sampleFiles ["b.js"]).result =
      .ok ⟨assign [sampleRoute], []⟩ :=
    Extraction.result_of_read Extraction.read_plain hsource (List.cons_ne_nil _ _)
  obtain ⟨-, -, each, -, documents⟩ :=
    assigned_ids_are_unique [sample "a", sample "a", sample "a_2"]
  have hsecond := (each 1 (sample "a") (sample "a_3") rfl (by rw [hout]; rfl)).2.2 (by decide)
  rw [hout] at hsecond
  exact ⟨⟨rfl, hsecond⟩, _, hr, documents _ _ _ {} hr⟩

end RouteBook.OperationId
