import RouteBook.Check
import RouteBook.Proofs.Bundle
import RouteBook.Proofs.Descriptor
import RouteBook.Proofs.Json
import RouteBook.Proofs.OpenApi

/-! The API document of valid descriptors is a plain value, so that its JSON text is read back as
the same document. -/
namespace RouteBook.OpenApi
open Value (Plain)

attribute [simp] Plain.str Plain.bool

theorem plain_object {fields : List (String × Value)} (hk : (Pairs.keys fields).Nodup)
    (hf : ∀ p ∈ fields, Plain p.2) : Plain (object fields) :=
  .map hk hf

@[simp] theorem plain_texts (texts : List String) : Plain (Field.ofTexts texts) :=
  .list (by simp)

@[simp] theorem plain_parameter (p : Param) : Plain (parameter p) := by
  have hschema : Plain (object [("type", .str (Text.lower p.type))]) :=
    plain_object (by simp [Pairs.keys]) (by simp)
  exact plain_object (by simp [Pairs.keys]) (by simp [hschema])

theorem plain_responses {responses : List (String × String)} (h : StatusMap responses) :
    Plain (object (responses.map fun r => (r.1, object [("description", .str r.2)]))) := by
  refine plain_object ?_ ?_
  · simpa [Pairs.keys, Function.comp_def] using h.distinct
  · intro p hp
    obtain ⟨r, -, rfl⟩ := List.mem_map.mp hp
    exact plain_object (by simp [Pairs.keys]) (by simp)

theorem plain_security (schemes : List String) :
    Plain (.list (schemes.map fun s => object [(s, .list [])])) := by
  refine .list fun v hv => ?_
  obtain ⟨s, -, rfl⟩ := List.mem_map.mp hv
  exact plain_object (by simp [Pairs.keys]) (by simp [Plain.list])

theorem plain_operation {d : Descriptor} (h : d.Valid) : Plain (operation d) := by
  have hparams : Plain (.list (d.parameters.map parameter)) := .list (by simp)
  have hresponses := plain_responses h.responses
  have hsecurity := plain_security d.security
  unfold operation
  split
  · exact plain_object (by simp [Pairs.keys]) (by simp [hparams, hresponses])
  · exact plain_object (by simp [Pairs.keys]) (by simp [hparams, hresponses, hsecurity])

theorem plain_server (s : Server) : Plain (server s) := by
  unfold server
  split <;> exact plain_object (by simp [Pairs.keys]) (by simp)

theorem plain_info (config : RenderConfig) : Plain (info config) := by
  unfold info
  split <;> exact plain_object (by simp [Pairs.keys]) (by simp)

theorem plain_paths {ds : List Descriptor} (h : ∀ d ∈ ds, d.Valid) :
    Plain (pathsValue (fill ds).paths) := by
  refine plain_object ?_ ?_
  · simpa [Pairs.keys, Function.comp_def] using (reflects_fill ds).distinct
  · intro p hp
    obtain ⟨⟨path, ms⟩, hm, rfl⟩ := List.mem_map.mp hp
    have hrow := Pairs.get?_of_mem (reflects_fill ds).distinct hm
    refine plain_object ?_ ?_
    · simpa [Pairs.keys, Function.comp_def] using ((reflects_fill ds).methods path ms hrow).1
    · intro q hq
      obtain ⟨m, hms, rfl⟩ := List.mem_map.mp hq
      exact plain_operation (h m.2 (mem_of_mem_row hm hms).1)

theorem plain_build {ds : List Descriptor} (h : ∀ d ∈ ds, d.Valid) (config : RenderConfig) :
    Plain (build ds config).1 := by
  have hservers : Plain (.list (config.servers.map server)) := by
    refine .list fun v hv => ?_
    obtain ⟨s, -, rfl⟩ := List.mem_map.mp hv
    exact plain_server s
  have hnone : Plain (object []) := plain_object (by simp [Pairs.keys]) (by simp)
  have hcomponents : Plain (object [("schemas", object []), ("securitySchemes", object [])]) :=
    plain_object (by simp [Pairs.keys]) (by simp [hnone])
  exact plain_object (by simp [Pairs.keys])
    (by simp [plain_info, hservers, plain_paths h, hcomponents])

end RouteBook.OpenApi

namespace RouteBook.Check

theorem reports_eq_nil {endings : List String} {report? : String → Except Fault (Option String)}
    {files : Files}
    (h : ∀ p ∈ files, endings.any (hasEnding · p.1) = true → report? p.2 = .ok none) :
    reports endings report? files = .ok [] := by
  induction files with
  | nil => rfl
  | cons p files ih =>
    have hmore := ih fun q hq => h q (List.mem_cons_of_mem p hq)
    by_cases hp : endings.any (hasEnding · p.1) = true
    · simp only [reports, hp, if_true, h p (by simp) hp, hmore]
      rfl
    · simp only [reports, hp, hmore]
      rfl

theorem jsonReport?_print {v : Value} (h : Value.Plain v) :
    jsonReport? (Json.print v) = .ok none := by
  rw [jsonReport?, Json.parse_print h]

theorem eq_of_json_ending {ds : List Descriptor} {config : RenderConfig} {f : Bundle.Format}
    {p : String × String} (hp : p ∈ (Bundle.documents ds config f).1)
    (he : hasEnding ".json" p.1 = true) :
    p = ("openapi.json", Json.print (OpenApi.build ds config).1) := by
  have hyaml : hasEnding ".json" "openapi.yaml" ≠ true := by decide
  have hpage : hasEnding ".json" "API.md" ≠ true := by decide
  have hindex : hasEnding ".json" "index.html" ≠ true := by decide
  cases f with
  | openapi =>
    rcases List.mem_pair.mp hp with rfl | rfl
    · rfl
    · exact absurd he hyaml
  | markdown =>
    rw [List.mem_singleton.mp hp] at he
    exact absurd he hpage
  | html =>
    rw [List.mem_singleton.mp hp] at he
    exact absurd he hindex

/-- Whatever characters the texts of valid descriptors and of the settings hold, the JSON text of
their document is read back as this document, with the order of its entries; so no bundle is
reported for its JSON. -/
theorem json_text_is_lossless (ds : List Descriptor) (hd : ∀ d ∈ ds, d.Valid)
    (config : RenderConfig) :
    Json.parse (Json.print (OpenApi.build ds config).1).toList = .ok (OpenApi.build ds config).1 ∧
    ∀ names files logs, Bundle.render ds config names = .ok (files, logs) →
      json files = .ok [] := by
  have hplain := OpenApi.plain_build hd config
  refine ⟨Json.parse_print hplain, ?_⟩
  intro names files logs hr
  obtain ⟨formats, hf⟩ := Bundle.holds_of_render hr
  refine reports_eq_nil fun p hp he => ?_
  obtain ⟨f, -, hpf⟩ := hf.sound p hp
  rw [eq_of_json_ending hpf (by simpa using he)]
  exact jsonReport?_print hplain

/-- A descriptor whose texts need each way of writing a character. -/
def quoting : Descriptor :=
  { method := .get, path := "/\"\\\\\x01\u2028😀", summary := "\t\n\x7f", responses := [("200", "")],
    security := ["\\"], operationId := "" }

theorem quoting_valid : quoting.Valid := ⟨by decide, by decide, by decide⟩

theorem json_text_is_lossless_quoting :
    Json.parse (Json.print (OpenApi.build [quoting] {}).1).toList =
      .ok (OpenApi.build [quoting] {}).1 ∧
    ∃ files logs, Bundle.render [quoting] {} ["openapi", "html"] = .ok (files, logs) ∧
      json files = .ok [] := by
  have h := json_text_is_lossless [quoting] (by simp [quoting_valid]) {}
  obtain ⟨files, logs, hr, -⟩ : ∃ files logs,
      Bundle.render [quoting] {} ["openapi", "html"] = .ok (files, logs) ∧ _ :=
    Bundle.exists_bundle (by simp) {} (by decide)
  exact ⟨h.1, files, logs, hr, h.2 _ _ _ hr⟩

end RouteBook.Check
