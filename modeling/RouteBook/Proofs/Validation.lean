import RouteBook.Check
import RouteBook.Proofs.Json.Grammar
import RouteBook.Proofs.Pairs
import RouteBook.Proofs.Yaml.Origin

/-! The reports on a set of files. The check is meant to end with reports, whatever the files hold.
Main statement: it ends otherwise exactly where a JSON number is too long, where a scalar or an
escape of a YAML text has no value, or where a readable API document has the wrong shape; and
else it reports just the files that cannot be read. -/
namespace RouteBook.Check
open Outcome

section Reports
variable {endings : List String} {report? : String → Except Fault (Option String)}

/-- Whether a file has one of these endings. -/
def hasOneOf (endings : List String) (name : String) : Bool := endings.any (hasEnding · name)

/-- The report on one file, if there is one. -/
def reportOn (endings : List String) (report? : String → Except Fault (Option String))
    (file : String × String) : Except Fault (Option String) :=
  if hasOneOf endings file.1 then report? file.2 else .ok none

theorem reports_cons (file : String × String) (files : Files) :
    reports endings report? (file :: files) = (do
      let here ← reportOn endings report? file
      let more ← reports endings report? files
      return (here.map fun r => (file.1, r)).toList ++ more) := by
  rw [reports, reportOn, hasOneOf]
  split <;> rfl

/-- All files together are reported on exactly if each of them is. -/
theorem exists_reports_iff {files : Files} : (∃ rs, reports endings report? files = .ok rs) ↔
    ∀ file ∈ files, ∃ r, reportOn endings report? file = .ok r := by
  induction files with
  | nil => simp [reports]
  | cons file files ih =>
    simp only [reports_cons, bind_eq_ok_iff, List.forall_mem_cons, ← ih]
    constructor
    · rintro ⟨_, here, hhere, more, hmore, -⟩
      exact ⟨⟨here, hhere⟩, more, hmore⟩
    · rintro ⟨⟨here, hhere⟩, more, hmore⟩
      exact ⟨_, here, hhere, more, hmore, rfl⟩

theorem keys_reports {files rs : Files} (h : reports endings report? files = .ok rs) :
    (Pairs.keys rs).Sublist (Pairs.keys files) := by
  induction files generalizing rs with
  | nil =>
    cases h
    exact .slnil
  | cons file files ih =>
    simp only [reports_cons, bind_eq_ok_iff] at h
    obtain ⟨here, -, more, hmore, he⟩ := h
    cases he
    cases here with
    | none => exact (ih hmore).cons file.1
    | some r => exact (ih hmore).cons_cons file.1

theorem mem_reports_iff {files rs : Files} (h : reports endings report? files = .ok rs)
    {name report : String} : (name, report) ∈ rs ↔
      ∃ text, (name, text) ∈ files ∧ reportOn endings report? (name, text) = .ok (some report) := by
  induction files generalizing rs with
  | nil =>
    cases h
    simp
  | cons file files ih =>
    simp only [reports_cons, bind_eq_ok_iff] at h
    obtain ⟨here, hhere, more, hmore, he⟩ := h
    cases he
    rw [List.mem_append, ih hmore]
    have hhead : (name, report) ∈ (here.map fun r => (file.1, r)).toList ↔
        ∃ text, (name, text) = file ∧
          reportOn endings report? (name, text) = .ok (some report) := by
      constructor
      · intro hm
        obtain ⟨r, rfl, hr⟩ := Option.map_eq_some_iff.mp (Option.mem_toList.mp hm)
        obtain ⟨rfl, rfl⟩ := Prod.mk.inj hr
        exact ⟨file.2, rfl, hhere⟩
      · rintro ⟨text, rfl, hr⟩
        rw [hhere] at hr
        rw [Except.ok.inj hr]
        simp
    simp only [hhead, List.mem_cons, or_and_right, exists_or]

/-- A way of reporting that ends on all texts but the bad ones, and then reports those that are not
good. -/
structure Judges (report? : String → Except Fault (Option String)) (Bad Good : String → Prop) :
    Prop where
  ends (text : String) : (∃ r, report? text = .ok r) ↔ ¬ Bad text
  tells (text : String) (h : ¬ Bad text) : (∃ r, report? text = .ok (some r)) ↔ ¬ Good text

section Judges
variable {Bad Good : String → Prop}

theorem Judges.exists_iff (j : Judges report? Bad Good) {files : Files} :
    (∃ rs, reports endings report? files = .ok rs) ↔
      ∀ name text, (name, text) ∈ files → hasOneOf endings name = true → ¬ Bad text := by
  rw [exists_reports_iff, Prod.forall]
  refine forall_congr' fun name => forall_congr' fun text => imp_congr_right fun _ => ?_
  rw [reportOn, ← j.ends]
  by_cases hn : hasOneOf endings name = true <;> simp [hn]

theorem Judges.mem_keys_iff (j : Judges report? Bad Good) {files rs : Files}
    (h : reports endings report? files = .ok rs) {name : String} :
    name ∈ Pairs.keys rs ↔
      ∃ text, (name, text) ∈ files ∧ hasOneOf endings name = true ∧ ¬ Good text := by
  have hreport : name ∈ Pairs.keys rs ↔ ∃ report, (name, report) ∈ rs := by simp [Pairs.keys]
  simp only [hreport, mem_reports_iff h, reportOn]
  rw [exists_comm]
  refine exists_congr fun text => ?_
  rw [exists_and_left]
  refine and_congr_right fun hm => ?_
  by_cases hn : hasOneOf endings name = true
  · simpa [hn] using j.tells text (j.exists_iff.mp ⟨rs, h⟩ name text hm hn)
  · simp [hn]

end Judges

end Reports

section Encodings
variable {name text : String}

def isJson (name : String) : Bool := hasOneOf [".json"] name

def isYaml (name : String) : Bool := hasOneOf [".yaml", ".yml"] name

theorem getLast?_of_hasEnding {ending : String} (h : hasEnding ending name = true) {c : Char}
    (hc : ending.toList.getLast? = some c) : name.toList.getLast? = some c := by
  obtain ⟨front, hf⟩ := List.isSuffixOf_iff_suffix.mp h
  rw [← hf, List.getLast?_append, hc]
  rfl

theorem getLast?_of_isJson (h : isJson name = true) : name.toList.getLast? = some 'n' := by
  rw [isJson, hasOneOf, List.any_cons, List.any_nil, Bool.or_false] at h
  exact getLast?_of_hasEnding h (by decide)

theorem getLast?_of_isYaml (h : isYaml name = true) : name.toList.getLast? = some 'l' := by
  rw [isYaml, hasOneOf, List.any_cons, List.any_cons, List.any_nil, Bool.or_false,
    Bool.or_eq_true] at h
  rcases h with h | h <;> exact getLast?_of_hasEnding h (by decide)

theorem not_isYaml_of_isJson (h : isJson name = true) : isYaml name ≠ true := by
  intro hy
  have hlast := (getLast?_of_isJson h).symm.trans (getLast?_of_isYaml hy)
  simp at hlast

/-- A text of the JSON grammar, which also has words for infinities and for no number. -/
def IsJsonText (text : String) : Prop := ∃ v, Json.Denotes false text.toList v

/-- A YAML text that can be loaded. -/
def IsYamlText (text : String) : Prop := ∃ v, Yaml.load text.toList = .ok v

def Strays (text : String) : Prop := ∃ e, Yaml.load text.toList = .error e ∧ e ≠ .malformed

theorem judges_json :
    Judges jsonReport? (fun text => Json.StopsAtLongNumber text.toList) IsJsonText where
  ends text := by
    unfold jsonReport? Json.StopsAtLongNumber
    cases hp : Json.parse text.toList with
    | ok v => simp
    | error f => by_cases hi : f.issue = .tooManyDigits <;> simp [hi]
  tells text h := by
    rw [IsJsonText, ← Json.exists_parse_iff h]
    unfold jsonReport?
    cases hp : Json.parse text.toList with
    | ok v => simp
    | error f =>
      have hi : f.issue ≠ .tooManyDigits := fun hi => h ⟨f, hp, hi⟩
      simp [hi]

theorem judges_yaml : Judges yamlReport? Strays IsYamlText where
  ends text := by
    unfold yamlReport? Strays
    cases hl : Yaml.load text.toList with
    | ok v => simp
    | error e => cases e <;> simp
  tells text h := by
    unfold yamlReport? IsYamlText
    cases hl : Yaml.load text.toList with
    | ok v => simp
    | error e =>
      have he : e = .malformed := by_contra fun he => h ⟨e, hl, he⟩
      simp [he]

end Encodings

section Shape

/-- A value that can be gone through as the names of operations. -/
inductive Listable : Value → Prop where
  | text (s : String) : Listable (.str s)
  | halves (codes : List Nat) : Listable (.halves codes)
  | map (entries : List (Value × Value)) : Listable (.map entries)
  | list (items : List Value) : (∀ v ∈ items, v.isKey = true) → Listable (.list items)

/-- A mapping whose paths, if it has any, are a mapping to such values. -/
def HasOperations (doc : Value) : Prop :=
  ∃ fields, doc = .map fields ∧ ∀ v, Pairs.get? (.str "paths") fields = some v →
    ∃ paths, v = .map paths ∧ ∀ p ∈ paths, Listable p.2

theorem exists_operationNames_iff {v : Value} :
    (∃ names, operationNames v = .ok names) ↔ Listable v := by
  constructor
  · rintro ⟨names, h⟩
    unfold operationNames at h
    split at h
    · exact .map _
    · split at h
      · next hk => exact .list _ (List.all_eq_true.mp hk)
      · cases h
    · exact .text _
    · exact .halves _
    · cases h
  · rintro (s | codes | entries | ⟨items, hk⟩)
    · exact ⟨_, rfl⟩
    · exact ⟨_, rfl⟩
    · exact ⟨_, rfl⟩
    · exact ⟨_, if_pos (List.all_eq_true.mpr hk)⟩

theorem exists_operations_iff {paths : List (Value × Value)} :
    (∃ names, operations paths = .ok names) ↔ ∀ p ∈ paths, Listable p.2 := by
  induction paths with
  | nil => simp [operations]
  | cons p paths ih =>
    rw [List.forall_mem_cons, ← ih, ← exists_operationNames_iff]
    simp only [operations, bind_eq_ok_iff]
    constructor
    · rintro ⟨_, names, hnames, more, hmore, -⟩
      exact ⟨⟨names, hnames⟩, more, hmore⟩
    · rintro ⟨⟨names, hnames⟩, more, hmore⟩
      exact ⟨_, names, hnames, more, hmore, rfl⟩

/-- The operations of a document can be gone through exactly if it has this shape. -/
theorem exists_operations_of_doc_iff {doc : Value} :
    (∃ names, (pathsOf doc >>= operations) = .ok names) ↔ HasOperations doc := by
  constructor
  · rintro ⟨names, h⟩
    obtain ⟨paths, hp, ho⟩ := (bind_eq_ok_iff _ _ _).mp h
    unfold pathsOf at hp
    split at hp
    · next fields =>
      refine ⟨fields, rfl, fun v hv => ?_⟩
      rw [hv] at hp
      split at hp
      · next hnone => cases hnone
      · next paths' hsome =>
        cases hsome
        cases hp
        exact ⟨_, rfl, exists_operations_iff.mp ⟨names, ho⟩⟩
      · cases hp
    · cases hp
  · rintro ⟨fields, rfl, hshape⟩
    cases hg : Pairs.get? (.str "paths") fields with
    | none =>
      have hp : pathsOf (.map fields) = .ok [] := by rw [pathsOf, hg]
      exact ⟨[], by rw [hp]; rfl⟩
    | some v =>
      obtain ⟨paths, rfl, hl⟩ := hshape v hg
      have hp : pathsOf (.map fields) = .ok paths := by rw [pathsOf, hg]
      rw [hp]
      exact exists_operations_iff.mpr hl

def missingReport (page : String) (names : List String) : Files :=
  let missing := names.filter (!(headings page).contains ·)
  if missing.isEmpty then [] else [("API.md", "missing sections for " ++ ", ".intercalate missing)]

variable {files rs : Files}

theorem consistency_of_parse {api page : String} {doc : Value}
    (ha : Pairs.get? "openapi.json" files = some api)
    (hp : Pairs.get? "API.md" files = some page) (hd : Json.parse api.toList = .ok doc) :
    consistency files = missingReport page <$> (pathsOf doc >>= operations) := by
  simp only [consistency, ha, hp, hd]
  cases pathsOf doc with
  | error e => rfl
  | ok paths =>
    simp only [ok_bind]
    cases operations paths <;> rfl

/-- Headings can be compared exactly if the API document has the right shape or one of the two
documents is missing. -/
theorem exists_consistency_iff (hj : ∀ api, Pairs.get? "openapi.json" files = some api →
    ∃ doc, Json.parse api.toList = .ok doc) :
    (∃ rs, consistency files = .ok rs) ↔ ∀ api page doc,
      Pairs.get? "openapi.json" files = some api → Pairs.get? "API.md" files = some page →
      Json.parse api.toList = .ok doc → HasOperations doc := by
  constructor
  · rintro ⟨rs, h⟩ api page doc ha hp hd
    rw [consistency_of_parse ha hp hd, map_eq_ok_iff] at h
    obtain ⟨names, hn, -⟩ := h
    exact exists_operations_of_doc_iff.mp ⟨names, hn⟩
  · intro h
    cases ha : Pairs.get? "openapi.json" files with
    | none => exact ⟨[], by simp only [consistency, ha]; rfl⟩
    | some api =>
      cases hp : Pairs.get? "API.md" files with
      | none => exact ⟨[], by simp only [consistency, ha, hp]; rfl⟩
      | some page =>
        obtain ⟨doc, hd⟩ := hj api ha
        obtain ⟨names, hn⟩ := exists_operations_of_doc_iff.mpr (h api page doc ha hp hd)
        rw [consistency_of_parse ha hp hd, hn]
        exact ⟨_, rfl⟩

theorem keys_consistency (h : consistency files = .ok rs) : (Pairs.keys rs).Nodup ∧
    ∀ name ∈ Pairs.keys rs, name = "API.md" ∧ name ∈ Pairs.keys files := by
  have hnone : (Pairs.keys ([] : Files)).Nodup ∧
      ∀ name ∈ Pairs.keys ([] : Files), name = "API.md" ∧ name ∈ Pairs.keys files := by
    simp [Pairs.keys]
  cases ha : Pairs.get? "openapi.json" files with
  | none =>
    simp only [consistency, ha] at h
    cases h
    exact hnone
  | some api =>
    cases hp : Pairs.get? "API.md" files with
    | none =>
      simp only [consistency, ha, hp] at h
      cases h
      exact hnone
    | some page =>
      cases hd : Json.parse api.toList with
      | error f =>
        simp only [consistency, ha, hp, hd] at h
        split at h <;> cases h
      | ok doc =>
        rw [consistency_of_parse ha hp hd, map_eq_ok_iff] at h
        obtain ⟨names, -, rfl⟩ := h
        have hpage : "API.md" ∈ Pairs.keys files :=
          List.mem_map.mpr ⟨_, Pairs.mem_of_get? hp, rfl⟩
        rw [missingReport]
        split
        · exact hnone
        · simpa [Pairs.keys] using hpage

end Shape

section Documents
variable {files : Files}

/-- All files with an encoding can be read. -/
def Readable (files : Files) : Prop := ∀ name text, (name, text) ∈ files →
  (isJson name = true → IsJsonText text) ∧ (isYaml name = true → IsYamlText text)

/-- Files on which the check does not end with reports. -/
inductive Derails (files : Files) : Prop where
  /-- A whole number in a JSON file has too many digits. -/
  | number (name text : String) (hm : (name, text) ∈ files) (hn : isJson name = true)
      (hs : Json.StopsAtLongNumber text.toList) (hl : Json.HasLongNumber text.toList)
  /-- An escape in a YAML file stands for no character. -/
  | escape (name text : String) (e : Yaml.LoadError) (hm : (name, text) ∈ files)
      (hn : isYaml name = true) (hl : Yaml.load text.toList = .error e)
      (hs : .fault e ∈ Yaml.Token.scan text.toList)
      (he : e = .escapeOutOfRange ∨ e = .escapeTooLarge)
  /-- The version in front of a YAML document has too many digits. -/
  | version (name text : String) (hm : (name, text) ∈ files) (hn : isYaml name = true)
      (hl : Yaml.load text.toList = .error .badNumber)
      (hs : .fault .badNumber ∈ Yaml.Token.scan text.toList)
  /-- A scalar of a YAML document, or a mapping in place of one, has no value. -/
  | part (name text : String) (e : Yaml.LoadError) (node : Yaml.Node)
      (hm : (name, text) ∈ files) (hn : isYaml name = true)
      (hl : Yaml.load text.toList = .error e)
      (ht : Yaml.Node.ofTokens? (Yaml.Token.scan text.toList) = .ok (some node))
      (hr : node.Refuses e) (he : e ≠ .malformed)
  /-- All files can be read, but the operations of the API document cannot be gone through. -/
  | shape (api page : String) (doc : Value) (hr : Readable files)
      (ha : ("openapi.json", api) ∈ files) (hp : ("API.md", page) ∈ files)
      (hd : Json.parse api.toList = .ok doc) (hs : ¬ HasOperations doc)

/-- What the reports on a set of files say. -/
structure Reported (files reports : Files) : Prop where
  distinct : (Pairs.keys reports).Nodup
  known : ∀ name ∈ Pairs.keys reports, name ∈ Pairs.keys files
  json : ∀ name text, (name, text) ∈ files → isJson name = true →
    (name ∈ Pairs.keys reports ↔ ¬ IsJsonText text)
  yaml : ∀ name text, (name, text) ∈ files → isYaml name = true →
    (name ∈ Pairs.keys reports ↔ ¬ IsYamlText text)
  /-- Headings are compared only if all files can be read. -/
  crossed : Readable files → consistency files = .ok reports
  uncrossed : ¬ Readable files →
    ∀ name ∈ Pairs.keys reports, isJson name = true ∨ isYaml name = true

theorem documents_eq (files : Files) : documents files = (do
    let js ← Check.json files
    let ys ← Check.yaml files
    if (Pairs.update js ys).isEmpty then consistency files else return Pairs.update js ys) := rfl

theorem isEmpty_update_iff {js ys : Files} (hj : Check.json files = .ok js)
    (hy : Check.yaml files = .ok ys) : (Pairs.update js ys).isEmpty = true ↔ Readable files := by
  have hempty : (Pairs.update js ys).isEmpty = true ↔
      ∀ name, name ∉ Pairs.keys js ∧ name ∉ Pairs.keys ys := by
    rw [List.isEmpty_iff, ← List.map_eq_nil_iff (f := Prod.fst), List.eq_nil_iff_forall_not_mem]
    exact forall_congr' fun name => (not_congr Pairs.mem_keys_update).trans not_or
  rw [hempty]
  simp only [judges_json.mem_keys_iff hj, judges_yaml.mem_keys_iff hy, Readable, not_exists,
    not_and, not_not]
  exact ⟨fun h name text hm => ⟨(h name).1 text hm, (h name).2 text hm⟩,
    fun h name => ⟨fun text hm => (h name text hm).1, fun text hm => (h name text hm).2⟩⟩

/-- The check ends with reports exactly if each of its three parts does; the third one is left out
unless all files can be read. -/
theorem exists_documents_iff : (∃ rs, documents files = .ok rs) ↔
    (∃ js, Check.json files = .ok js) ∧ (∃ ys, Check.yaml files = .ok ys) ∧
      (Readable files → ∃ rs, consistency files = .ok rs) := by
  simp only [documents_eq, bind_eq_ok_iff]
  constructor
  · rintro ⟨rs, js, hj, ys, hy, h⟩
    refine ⟨⟨js, hj⟩, ⟨ys, hy⟩, fun hr => ⟨rs, ?_⟩⟩
    rwa [if_pos ((isEmpty_update_iff hj hy).mpr hr)] at h
  · rintro ⟨⟨js, hj⟩, ⟨ys, hy⟩, h⟩
    by_cases hr : Readable files
    · obtain ⟨rs, hrs⟩ := h hr
      exact ⟨rs, js, hj, ys, hy, by rwa [if_pos ((isEmpty_update_iff hj hy).mpr hr)]⟩
    · exact ⟨_, js, hj, ys, hy, if_neg (mt (isEmpty_update_iff hj hy).mp hr)⟩

theorem exists_consistency_iff_of_readable (hd : (Pairs.keys files).Nodup) (hr : Readable files)
    (hj : ∃ js, Check.json files = .ok js) :
    (∃ rs, consistency files = .ok rs) ↔ ∀ api page doc, ("openapi.json", api) ∈ files →
      ("API.md", page) ∈ files → Json.parse api.toList = .ok doc → HasOperations doc := by
  refine (exists_consistency_iff fun api ha => ?_).trans ?_
  · have hm := Pairs.mem_of_get? ha
    exact (Json.exists_parse_iff (judges_json.exists_iff.mp hj _ api hm (by decide))).mpr
      ((hr _ api hm).1 (by decide))
  · refine forall_congr' fun api => forall_congr' fun page => forall_congr' fun doc => ?_
    exact imp_congr ⟨Pairs.mem_of_get?, Pairs.get?_of_mem hd⟩
      (imp_congr ⟨Pairs.mem_of_get?, Pairs.get?_of_mem hd⟩ Iff.rfl)

/-- The check ends with reports on all files but those that derail it. -/
theorem exists_documents_iff_not_derails (hd : (Pairs.keys files).Nodup) :
    (∃ rs, documents files = .ok rs) ↔ ¬ Derails files := by
  rw [exists_documents_iff]
  constructor
  · rintro ⟨hj, hy, hshape⟩ h
    cases h with
    | number name text hm hn hs hl => exact judges_json.exists_iff.mp hj name text hm hn hs
    | escape name text e hm hn hl hs he =>
      refine judges_yaml.exists_iff.mp hy name text hm hn ⟨e, hl, ?_⟩
      rcases he with rfl | rfl <;> simp
    | version name text hm hn hl hs =>
      exact judges_yaml.exists_iff.mp hy name text hm hn ⟨_, hl, by simp⟩
    | part name text e node hm hn hl ht hr he =>
      exact judges_yaml.exists_iff.mp hy name text hm hn ⟨e, hl, he⟩
    | shape api page doc hr ha hp hdoc hs =>
      have hshapes := (exists_consistency_iff_of_readable hd hr hj).mp (hshape hr)
      exact hs (hshapes api page doc ha hp hdoc)
  · intro h
    have hj : ∃ js, Check.json files = .ok js := judges_json.exists_iff.mpr
      fun name text hm hn hs => h (.number name text hm hn hs hs.hasLongNumber)
    refine ⟨hj, judges_yaml.exists_iff.mpr ?_, fun hr => ?_⟩
    · rintro name text hm hn ⟨e, hl, he⟩
      rcases Yaml.origin_of_stray hl he with ⟨hs, rfl | hkind⟩ | ⟨node, ht, href⟩
      · exact h (.version name text hm hn hl hs)
      · exact h (.escape name text e hm hn hl hs hkind)
      · exact h (.part name text e node hm hn hl ht href he)
    · refine (exists_consistency_iff_of_readable hd hr hj).mpr fun api page doc ha hp hdoc => ?_
      exact by_contra fun hs => h (.shape api page doc hr ha hp hdoc hs)

/-- A file's text is the only one under its name, so that "some text under it" is this text. -/
theorem exists_text_iff (hd : (Pairs.keys files).Nodup) {name text : String}
    (hm : (name, text) ∈ files) {P : String → Prop} :
    (∃ t, (name, t) ∈ files ∧ P t) ↔ P text := by
  refine ⟨fun ⟨t, ht, hp⟩ => ?_, fun hp => ⟨text, hm, hp⟩⟩
  have hsame : some t = some text :=
    (Pairs.get?_of_mem hd ht).symm.trans (Pairs.get?_of_mem hd hm)
  exact Option.some.inj hsame ▸ hp

theorem reported_of_readable {rs : Files} (hr : Readable files) (h : consistency files = .ok rs) :
    Reported files rs := by
  obtain ⟨hnodup, hpage⟩ := keys_consistency h
  have hjson : ∀ name, isJson name = true → name ∉ Pairs.keys rs := by
    intro name hn hm
    rw [(hpage name hm).1] at hn
    exact absurd hn (by decide)
  have hyaml : ∀ name, isYaml name = true → name ∉ Pairs.keys rs := by
    intro name hn hm
    rw [(hpage name hm).1] at hn
    exact absurd hn (by decide)
  exact {
    distinct := hnodup
    known := fun name hm => (hpage name hm).2
    json := fun name text hm hn =>
      iff_of_false (hjson name hn) (not_not.mpr ((hr name text hm).1 hn))
    yaml := fun name text hm hn =>
      iff_of_false (hyaml name hn) (not_not.mpr ((hr name text hm).2 hn))
    crossed := fun _ => h
    uncrossed := fun hn => absurd hr hn }

theorem reported_of_not_readable {js ys : Files} (hd : (Pairs.keys files).Nodup)
    (hr : ¬ Readable files) (hj : Check.json files = .ok js) (hy : Check.yaml files = .ok ys) :
    Reported files (Pairs.update js ys) where
  distinct := Pairs.nodup_keys_update (hd.sublist (keys_reports hj)) ys
  known name hn := by
    rcases Pairs.mem_keys_update.mp hn with hn | hn
    · exact (keys_reports hj).subset hn
    · exact (keys_reports hy).subset hn
  json name text hm hn := by
    rw [Pairs.mem_keys_update, judges_json.mem_keys_iff hj, judges_yaml.mem_keys_iff hy,
      exists_text_iff hd hm, exists_text_iff hd hm]
    exact ⟨fun h => h.elim And.right fun h => absurd h.1 (not_isYaml_of_isJson hn),
      fun h => .inl ⟨hn, h⟩⟩
  yaml name text hm hn := by
    rw [Pairs.mem_keys_update, judges_json.mem_keys_iff hj, judges_yaml.mem_keys_iff hy,
      exists_text_iff hd hm, exists_text_iff hd hm]
    exact ⟨fun h => h.elim (fun h => absurd hn (not_isYaml_of_isJson h.1)) And.right,
      fun h => .inr ⟨hn, h⟩⟩
  crossed h := absurd h hr
  uncrossed _ name hn := by
    rcases Pairs.mem_keys_update.mp hn with hn | hn
    · obtain ⟨_, -, hn, -⟩ := (judges_json.mem_keys_iff hj).mp hn
      exact .inl hn
    · obtain ⟨_, -, hn, -⟩ := (judges_yaml.mem_keys_iff hy).mp hn
      exact .inr hn

/-- Files of all kinds, among them one of each encoding that cannot be read. -/
def mixedFiles : Files :=
  [("API.md", ""), ("a.json", "\x7b\n]"), ("a.yml", "a: [1"), ("b.json", "NaN"), ("notes", "\x7b")]

def mixedReports : Files :=
  [("a.json", "JSONDecodeError: Expecting property name enclosed in double quotes (line 2)"),
    ("a.yml", "YAMLError: " ++ Yaml.LoadError.malformed.message)]

end Documents

end RouteBook.Check
