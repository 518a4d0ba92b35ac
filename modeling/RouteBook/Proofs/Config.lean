import RouteBook.Command.Session
import RouteBook.Proofs.FileAction
import RouteBook.Proofs.Pairs
import RouteBook.Proofs.Utf8
import RouteBook.Proofs.Yaml.Origin

/-! How loading the settings of a file ends. It is meant to end with settings or with a fault that
is told to the user. Main statement: it ends otherwise exactly on a file that is not UTF-8, has an
escape that stands for no character or a version with too many digits, has a scalar without a value,
or has a setting whose name is no text. -/
namespace RouteBook.Config
variable {fs : FileSystem} {p : Path} {bytes : List UInt8} {o : Overrides}

/-- The settings of a file with overrides in their place. -/
def settled (fs : FileSystem) (p : Path) (o : Overrides) : Except LoadFault RenderConfig := do
  build (← load fs (some p)) o

/-- Loading ends with settings, or with a fault that is told to the user. -/
def Contained (r : Except LoadFault RenderConfig) : Prop :=
  Outcome.Meets (Command.isReported ·) (fun _ => True) r

theorem load_of_read (h : fs.read p = .ok bytes) : load fs (some p) =
    match Text.decode? bytes with
    | none => .error .notUnicode
    | some s => ofText p (unifyLineEnds s) := by
  have hfind : fs.find p = .ok (.file bytes) := by
    unfold FileSystem.read at h
    cases hf : fs.find p with
    | error e =>
      rw [hf] at h
      cases h
    | ok t =>
      rw [hf] at h
      cases t with
      | dir es => cases h
      | file data =>
        cases h
        rfl
  have hexists : fs.exists? p = .ok true := by
    rw [FileSystem.exists?, hfind]
  cases hd : Text.decode? bytes <;> simp only [load, hexists, h, hd]

theorem isName_of_mem_toFields : ∀ f ∈ o.toFields, isName f.1 = true := by
  intro f hf
  simp only [Overrides.toFields, List.mem_append, List.mem_map] at hf
  rcases hf with ((⟨s, -, rfl⟩ | ⟨s, -, rfl⟩) | ⟨s, -, rfl⟩) | ⟨s, -, rfl⟩ <;> rfl

/-- The overrides change nothing about the names. -/
theorem build_contained_iff (fields : Field.Fields) :
    Contained (build fields o) ↔ ∀ f ∈ fields, isName f.1 = true := by
  unfold build
  dsimp only
  rw [Pairs.all_keys_update isName_of_mem_toFields]
  by_cases hnames : (fields.all fun f => isName f.1) = true
  · rw [if_pos hnames]
    refine iff_of_true ?_ (List.all_eq_true.mp hnames)
    split
    · trivial
    · rfl
  · rw [if_neg hnames]
    exact iff_of_false (by rintro ⟨⟩) (mt List.all_eq_true.mpr hnames)

/-- A text whose loading ends in a way that is not foreseen. -/
inductive Stray (text : List Char) : Prop where
  /-- The number of an escape is beyond the last code point. -/
  | escape (e : Yaml.LoadError) (h : Yaml.load text = .error e)
      (hs : .fault e ∈ Yaml.Token.scan text)
      (he : e = .escapeOutOfRange ∨ e = .escapeTooLarge)
  /-- The version in front of the document has too many digits. -/
  | version (h : Yaml.load text = .error .badNumber)
      (hs : .fault .badNumber ∈ Yaml.Token.scan text)
  /-- A scalar of the document, or a mapping in place of one, has no value. -/
  | part (e : Yaml.LoadError) (node : Yaml.Node) (h : Yaml.load text = .error e)
      (hn : Yaml.Node.ofTokens? (Yaml.Token.scan text) = .ok (some node))
      (hr : node.Refuses e) (he : e ≠ .malformed)
  /-- The name of a setting is no text. -/
  | name (fields : Field.Fields) (f : Value × Value) (h : Yaml.load text = .ok (.map fields))
      (hf : f ∈ fields) (hn : isName f.1 = false)

section Texts
variable {text : List Char} {e : Yaml.LoadError}

theorem stray_of_fault (h : Yaml.load text = .error e) (he : e ≠ .malformed) : Stray text := by
  rcases Yaml.origin_of_stray h he with ⟨hs, rfl | hkind⟩ | ⟨node, hn, hr⟩
  · exact .version h hs
  · exact .escape e h hs hkind
  · exact .part e node h hn hr he

/-- The ways to be stray, told by what is loaded. -/
theorem stray_iff : Stray text ↔
    (∃ e, Yaml.load text = .error e ∧ e ≠ .malformed) ∨
      ∃ fields, Yaml.load text = .ok (.map fields) ∧ ∃ f ∈ fields, isName f.1 = false := by
  constructor
  · intro h
    cases h with
    | escape e h hs he =>
      refine .inl ⟨e, h, ?_⟩
      rcases he with rfl | rfl <;> simp
    | version h hs => exact .inl ⟨_, h, by simp⟩
    | part e node h hn hr he => exact .inl ⟨e, h, he⟩
    | name fields f h hf hn => exact .inr ⟨fields, h, f, hf, hn⟩
  · rintro (⟨e, h, he⟩ | ⟨fields, h, f, hf, hn⟩)
    · exact stray_of_fault h he
    · exact .name fields f h hf hn

theorem ofText_contained_iff :
    Contained (ofText p text >>= (build · o)) ↔ ¬ Stray text := by
  rw [stray_iff]
  unfold ofText
  cases hl : Yaml.load text with
  | error e =>
    cases e <;> simp [Contained, Outcome.Meets, Command.isReported, Bind.bind, Except.bind]
  | ok v =>
    cases v with
    | map fields =>
      refine (build_contained_iff fields).trans ?_
      simp
    | null => exact iff_of_true ((build_contained_iff []).mpr (by simp)) (by simp)
    | _ => exact iff_of_true rfl (by simp)

end Texts

/-- A tree with nothing but a settings file. -/
def fileOf (bytes : List UInt8) : FileSystem :=
  { tree := .dir [("c.yaml", .file bytes)] }

def settingsPath : Path := Path.ofString "c.yaml"

theorem read_fileOf (bytes : List UInt8) : (fileOf bytes).read settingsPath = .ok bytes := by
  rfl

end RouteBook.Config
