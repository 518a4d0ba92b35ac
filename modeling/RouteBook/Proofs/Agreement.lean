import RouteBook.Proofs.Encoding
import RouteBook.Proofs.Yaml.Load

/-! The two texts of the API document stand for the same document, unless the YAML text loses a
character or hides a key. -/
namespace RouteBook.OpenApi
open Value (Within)
variable {m : Nat}

attribute [local simp] Within.str Within.bool

theorem within_object {fields : List (String × Value)} (h : ∀ p ∈ fields, Within m p.2) :
    Within (m + 1) (object fields) := by
  refine .map fun e he => ?_
  obtain ⟨p, hp, rfl⟩ := List.mem_map.mp he
  exact h p hp

theorem within_texts (texts : List String) : Within (m + 1) (Field.ofTexts texts) :=
  .list (by simp)

theorem within_parameter (p : Param) : Within (m + 2) (parameter p) := by
  have hschema : Within (m + 1) (object [("type", .str (Text.lower p.type))]) :=
    within_object (by simp)
  exact within_object (by simp [hschema])

theorem within_responses (responses : List (String × String)) :
    Within (m + 2) (object (responses.map fun r => (r.1, object [("description", .str r.2)]))) := by
  refine within_object fun p hp => ?_
  obtain ⟨r, -, rfl⟩ := List.mem_map.mp hp
  exact within_object (by simp)

theorem within_security (schemes : List String) :
    Within (m + 3) (.list (schemes.map fun s => object [(s, .list [])])) := by
  refine .list fun v hv => ?_
  obtain ⟨s, -, rfl⟩ := List.mem_map.mp hv
  have hnone : Within (m + 1) (.list []) := .list (by simp)
  exact within_object (by simp [hnone])

theorem within_operation (d : Descriptor) : Within (m + 4) (operation d) := by
  have htags : Within (m + 3) (Field.ofTexts d.tags) := within_texts d.tags
  have hparams : Within (m + 3) (.list (d.parameters.map parameter)) :=
    .list (by simp [within_parameter])
  have hresponses := within_responses (m := m + 1) d.responses
  have hsecurity := within_security (m := m) d.security
  unfold operation
  split
  · exact within_object (by simp [htags, hparams, hresponses])
  · exact within_object (by simp [htags, hparams, hresponses, hsecurity])

theorem within_paths (paths : Paths) : Within (m + 6) (pathsValue paths) := by
  refine within_object fun p hp => ?_
  obtain ⟨row, -, rfl⟩ := List.mem_map.mp hp
  refine within_object fun q hq => ?_
  obtain ⟨entry, -, rfl⟩ := List.mem_map.mp hq
  exact within_operation entry.2

theorem within_server (s : Server) : Within (m + 1) (server s) := by
  unfold server
  split <;> exact within_object (by simp)

theorem within_info (config : RenderConfig) : Within (m + 1) (info config) := by
  unfold info
  split <;> exact within_object (by simp)

theorem within_build (ds : List Descriptor) (config : RenderConfig) :
    Within 7 (build ds config).1 := by
  have hservers : Within 6 (.list (config.servers.map server)) := .list (by simp [within_server])
  have hnone : Within 5 (object []) := within_object (by simp)
  have hcomponents : Within 6 (object [("schemas", object []), ("securitySchemes", object [])]) :=
    within_object (by simp [hnone])
  exact within_object (by simp [within_info, hservers, within_paths, hcomponents])

section Texts
variable {ds : List Descriptor}

theorem yaml_loads_iff (hd : ∀ d ∈ ds, d.Valid) (config : RenderConfig) :
    (∃ v, Yaml.load (Yaml.print (build ds config).1).toList = .ok v) ↔
      Yaml.fits (build ds config).1 = true :=
  Yaml.load_print_ok_iff (by simp) (plain_build hd config) (within_build ds config) (by decide)

theorem yaml_same_iff (hd : ∀ d ∈ ds, d.Valid) (config : RenderConfig) :
    Yaml.load (Yaml.print (build ds config).1).toList = .ok (build ds config).1 ↔
      (build ds config).1.every Yaml.keepsText Yaml.keepsKey = true :=
  Yaml.load_print_eq_iff (by simp) (plain_build hd config) (within_build ds config) (by decide)

end Texts

/-- The JSON text of the document of valid descriptors is read back as this document. Its YAML text
can be loaded exactly if no key that stands before its colon is written with more than `keyReach`
characters, and then it is read back as the same document exactly if no text or key in single
quotes has a next-line character. -/
theorem yaml_agrees_with_json_iff_kept (ds : List Descriptor) (hd : ∀ d ∈ ds, d.Valid)
    (config : RenderConfig) :
    Json.parse (Json.print (build ds config).1).toList = .ok (build ds config).1 ∧
    ((∃ v, Yaml.load (Yaml.print (build ds config).1).toList = .ok v) ↔
      Yaml.fits (build ds config).1 = true) ∧
    (Yaml.load (Yaml.print (build ds config).1).toList = .ok (build ds config).1 ↔
      (build ds config).1.every Yaml.keepsText Yaml.keepsKey = true) :=
  ⟨Json.parse_print (plain_build hd config), yaml_loads_iff hd config, yaml_same_iff hd config⟩

/-- A descriptor whose texts would be taken for something else if they were written bare. -/
def hostile : Descriptor :=
  { method := .get, path := "/a: 'b' #\"\\\t\u2028😀", summary := "yes",
    description := " - x\n\n y: \x7b1\x7d\n", tags := ["null", "1.5", "", "2001-01-01"],
    parameters := [⟨"<<", "query", true, "=", "%x", none⟩],
    responses := [("200", "---"), ("404", "\x85\t")], security := ["!tag", "key\nwith break"],
    operationId := "0x1F" }

theorem hostile_valid : hostile.Valid := ⟨by decide, by decide, by decide⟩

theorem hostile_kept :
    (build [hostile] {}).1.every Yaml.keepsText Yaml.keepsKey = true := by
  decide +kernel

theorem yaml_agrees_with_json_iff_kept_hostile :
    hostile.Valid ∧
    Json.parse (Json.print (build [hostile] {}).1).toList = .ok (build [hostile] {}).1 ∧
    Yaml.load (Yaml.print (build [hostile] {}).1).toList = .ok (build [hostile] {}).1 := by
  have h := yaml_agrees_with_json_iff_kept [hostile] (by simp [hostile_valid]) {}
  exact ⟨hostile_valid, h.1, h.2.2.mpr hostile_kept⟩

/-- A short path of which each character but the first is written by an escape. -/
def faces : Descriptor :=
  { method := .get, path := String.ofList ('/' :: '\t' :: List.replicate 102 '😀'), summary := "",
    responses := [("200", "")], operationId := "" }

theorem faces_valid : faces.Valid := by
  refine ⟨?_, by decide, by decide⟩
  simp [faces]

theorem faces_too_long : Yaml.fitsKey faces.path = false := by
  have htext : faces.path.toList = '/' :: '\t' :: List.replicate 102 '😀' := String.toList_ofList
  have hsimple : Yaml.isSimpleKey (Yaml.scalarOf (.str faces.path)) = true := by
    rw [Yaml.isSimpleKey_str, htext]
    decide +kernel
  have hstyle : (Yaml.scalarOf (.str faces.path)).style true = .double := by
    simp only [Yaml.Scalar.style, Yaml.scalarOf, htext]
    cases Yaml.ScalarTag.ofBare faces.path == .str <;> decide +kernel
  have hface : (Yaml.doublePiece '😀').length = 10 := by decide +kernel
  have htab : (Yaml.doublePiece '\t').length = 2 := by decide
  have hslash : (Yaml.doublePiece '/').length = 1 := by decide
  have hlength : Yaml.keyLength faces.path = 1025 := by
    rw [Yaml.keyLength_eq hsimple, hstyle, htext]
    simp [Yaml.lineText, hface, htab, hslash]
  simp [Yaml.fitsKey, hsimple, hlength, Yaml.keyReach]

theorem unkept_texts_differ :
    (Json.parse (Json.print (build [hostile] { title := "a\x85b" }).1).toList =
        .ok (build [hostile] { title := "a\x85b" }).1 ∧
      Yaml.load (Yaml.print (build [hostile] { title := "a\x85b" }).1).toList ≠
        .ok (build [hostile] { title := "a\x85b" }).1) ∧
    ¬ ∃ v, Yaml.load (Yaml.print (build [faces] {}).1).toList = .ok v := by
  have hone : ∀ d ∈ [hostile], d.Valid := by simp [hostile_valid]
  have htwo : ∀ d ∈ [faces], d.Valid := by simp [faces_valid]
  refine ⟨⟨Json.parse_print (plain_build hone _), ?_⟩, ?_⟩
  · -- the title is written in single quotes
    rw [Ne, yaml_same_iff hone]
    decide +kernel
  · -- the path stands before its colon, which is out of reach
    rw [yaml_loads_iff htwo]
    intro hfits
    have hpaths := (Value.everyEntry_iff.mp hfits ("paths", pathsValue (fill [faces]).paths)
      (by simp)).2
    have hpath := (Value.everyEntry_iff.mp hpaths _ List.mem_cons_self).1
    exact absurd hpath (by simp [faces_too_long])

end RouteBook.OpenApi
