import RouteBook.Proofs.Config
import RouteBook.Proofs.Json.Grammar
import RouteBook.Proofs.Yaml.JsonLoad

/-! Settings in files of the JSON grammar, which are read as YAML. Main statement: a document that
keeps to the rules of spelling that both grammars share gives the same settings either way. -/
namespace RouteBook.Config
open Json (Document)
variable {fs : FileSystem} {p : Path}

/-- The settings of a JSON document under the shared rules are the members of its object. -/
theorem json_settings_are_members {d : Document} (hread : fs.read p = .ok (Text.encode d.text))
    (ho : d.root.isObject = true) (hd : d.obeys Yaml.shared = true) :
    ∃ fields, Json.parse d.text = .ok (.map fields) ∧ load fs (some p) = .ok fields := by
  have hroot : d.root.obeys Yaml.shared = true := by
    simp only [Document.obeys, Bool.and_eq_true] at hd
    exact hd.1.2
  obtain ⟨fields, hfields⟩ : ∃ fields, d.root.toValue = .map fields := by
    cases hr : d.root with
    | emptyMap gap => exact ⟨_, rfl⟩
    | map members => exact ⟨_, rfl⟩
    | _ =>
      rw [hr] at ho
      cases ho
  have hparse := Json.parse_document d
    (Json.Tree.obeys_mono Yaml.shared_implies_shortNumbers d.root hroot)
  have hload := Yaml.load_document ho hd
  rw [hfields] at hparse hload
  refine ⟨fields, hparse, ?_⟩
  rw [load_of_read hread, Text.decode?_encode]
  simp only [ofText, hload]

/-- A short document: one member, a list of two items. -/
def sample : Document where
  before := ⟨[], rfl⟩
  root := .map (.last ⟨[], rfl⟩ [.raw 'a' (by decide)] ⟨[' '], rfl⟩ ⟨['\r', '\n'], rfl⟩
    (.list (.next ⟨[], rfl⟩ (.string [.letter 'n' '\n' rfl, .code '0' '0' 'e' '9' rfl]) ⟨[], rfl⟩
      (.last ⟨[' '], rfl⟩ .null ⟨[], rfl⟩))) ⟨[], rfl⟩)
  after := ⟨['\n'], rfl⟩

theorem json_settings_are_members_sample :
    sample.text = "\x7b\"a\" :\r\n[\"\\n\\u00e9\", null]\x7d\n".toList ∧
    ∃ fields, Json.parse sample.text = .ok (.map fields) ∧
      load (fileOf (Text.encode sample.text)) (some settingsPath) = .ok fields :=
  ⟨by decide, json_settings_are_members (read_fileOf _) rfl (by decide +kernel)⟩

/-- Whether a text is an object of the JSON grammar that cannot be loaded, or is loaded with values
of other types. -/
def isLost (text : String) : Bool :=
  let types (fields : Field.Fields) : List String := fields.map fun f => f.2.kindName
  match Json.parse text.toList, load (fileOf text.toUTF8.toList) (some settingsPath) with
  | .ok (.map fields), .ok loaded => types fields != types loaded
  | .ok (.map _), .error _ => true
  | _, _ => false

/-- An exponent without a point makes a number a text, and a tab, a line end before a colon and the
delete character end the loading of JSON documents. -/
theorem json_settings_are_lost :
    ["\x7b\"a\": 1e3\x7d", "\x7b\"a\":\t1\x7d", "\x7b\"a\"\n:1\x7d",
      "\x7b\"a\":\"\x7f\"\x7d"].all isLost = true := by
  decide +kernel

end RouteBook.Config
