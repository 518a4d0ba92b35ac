import RouteBook.Config
import RouteBook.Proofs.Descriptor
import RouteBook.Proofs.Value

/-! Records and the fields that show them. Main statement: a record that was read from any fields
is read again, just as it is, from the fields that show it. -/
namespace RouteBook

namespace Checked
variable {α β : Type}

@[simp] theorem map_ok (f : α → β) (a : α) : f <$> Checked.ok a = .ok (f a) := rfl

@[simp] theorem seq_ok (f : α → β) (a : α) : Checked.ok f <*> Checked.ok a = .ok (f a) := rfl

@[simp] theorem under_ok (step : String) (a : α) : (Checked.ok a).under step = .ok a := rfl

end Checked

namespace Field
variable {α : Type} {name : String}

section Shown
variable {fields : List (String × Value)}

@[simp] theorem text_str (s : String) : text (.str s) = .ok s := rfl

@[simp] theorem integer_int (n : Int) : integer (.int n) = .ok n := rfl

@[simp] theorem flag_bool (b : Bool) : flag (.bool b) = .ok b := rfl

@[simp] theorem optionalText_shown (s : Option String) : optionalText (ofOptional s) = .ok s := by
  cases s <;> rfl

@[simp] theorem methodName_shown (m : Method) : methodName (.str m.name) = .ok m := by
  simp only [methodName, methodText, Method.ofName?_name]

theorem itemsFrom_shown {item : Reader α} {shown : α → Value} (h : ∀ a, item (shown a) = .ok a)
    (as : List α) (i : Nat) : itemsFrom item i (as.map shown) = .ok as := by
  induction as generalizing i with
  | nil => rfl
  | cons a as ih =>
    rw [List.map_cons, itemsFrom, h, ih]
    rfl

theorem listOf_shown {item : Reader α} {shown : α → Value} (h : ∀ a, item (shown a) = .ok a)
    (as : List α) : listOf item (.list (as.map shown)) = .ok as := itemsFrom_shown h as 0

theorem tupleOf_shown {item : Reader α} {shown : α → Value} (h : ∀ a, item (shown a) = .ok a)
    (as : List α) : tupleOf item (.list (as.map shown)) = .ok as := itemsFrom_shown h as 0

theorem record_shown (kind : String) {read : Fields → Checked α} {shown : α → Fields}
    (h : ∀ a, read (shown a) = .ok a) (a : α) : record kind read (.map (shown a)) = .ok a := h a

@[simp] theorem listOf_texts (texts : List String) : listOf text (ofTexts texts) = .ok texts :=
  listOf_shown text_str texts

@[simp] theorem tupleOf_texts (texts : List String) : tupleOf text (ofTexts texts) = .ok texts :=
  tupleOf_shown text_str texts

theorem entriesOf_shown (m : List (String × String)) :
    entriesOf (m.map fun p => (.str p.1, .str p.2)) = .ok m := by
  induction m with
  | nil => rfl
  | cons p m ih =>
    simp only [List.map_cons, entriesOf, ih]
    rfl

theorem textMapping_shown {m : List (String × String)} (h : (Pairs.keys m).Nodup) :
    textMapping (ofMapping m) = .ok m := by
  have hm : Pairs.ofList m = m :=
    Pairs.ofList_of_distinct ((List.pairwise_map.mp h).imp beq_eq_false_iff_ne.mpr)
  simp only [textMapping, ofMapping, entriesOf_shown]
  exact congrArg Checked.ok hm

theorem get?_ofNamed : Pairs.get? (.str name) (ofNamed fields) = Pairs.get? name fields :=
  Value.get?_entries name fields

theorem needed_ofNamed (read : Reader α) : needed name read (ofNamed fields) =
    ((Pairs.get? name fields).elim (Checked.issue .missing) read).under name := by
  rw [needed, get?_ofNamed]
  cases Pairs.get? name fields <;> rfl

theorem orElse_ofNamed (read : Reader α) (std : α) : orElse name read std (ofNamed fields) =
    (Pairs.get? name fields).elim (.ok std) fun v => (read v).under name := by
  rw [orElse, get?_ofNamed]
  cases Pairs.get? name fields <;> rfl

end Shown

/-- A list as a tuple, and any other value as it is. -/
def asTuple : Value → Value
  | .list vs => .tuple vs
  | v => v

def tupled (fields : Fields) : Fields := fields.map fun f => (f.1, asTuple f.2)

def TakesTuples (read : Reader α) : Prop := ∀ v, read (asTuple v) = read v

theorem takesTuples_text : TakesTuples text := fun v => by cases v <;> rfl

theorem takesTuples_optionalText : TakesTuples optionalText := fun v => by cases v <;> rfl

theorem takesTuples_integer : TakesTuples integer := fun v => by cases v <;> rfl

theorem takesTuples_methodName : TakesTuples methodName := fun v => by cases v <;> rfl

theorem takesTuples_textMapping : TakesTuples textMapping := fun v => by cases v <;> rfl

theorem takesTuples_tupleOf (item : Reader α) : TakesTuples (tupleOf item) := fun v => by
  cases v <;> rfl

theorem needed_tupled {read : Reader α} (h : TakesTuples read) (fields : Fields) :
    needed name read (tupled fields) = needed name read fields := by
  rw [needed, needed, tupled, Pairs.get?_map]
  cases Pairs.get? (.str name) fields with
  | none => rfl
  | some v => exact congrArg (Checked.under name) (h v)

theorem orElse_tupled {read : Reader α} (h : TakesTuples read) (std : α) (fields : Fields) :
    orElse name read std (tupled fields) = orElse name read std fields := by
  rw [orElse, orElse, tupled, Pairs.get?_map]
  cases Pairs.get? (.str name) fields with
  | none => rfl
  | some v => exact congrArg (Checked.under name) (h v)

theorem orElse_eq_ok {read : Reader α} {std a : α} {fields : Fields}
    (h : orElse name read std fields = .ok a) : a = std ∨ ∃ v, read v = .ok a := by
  unfold orElse at h
  split at h
  · exact .inr ⟨_, Checked.under_eq_ok.mp h⟩
  · exact .inl (Checked.ok.inj h).symm

end Field

open RouteBook.Field

attribute [local simp] needed_ofNamed orElse_ofNamed Pairs.get?

theorem RouteFact.ofFields_toFields (f : RouteFact) : RouteFact.ofFields f.toFields = .ok f := by
  simp [RouteFact.ofFields, RouteFact.toFields]

theorem DocParam.ofFields_toFields (p : DocParam) : DocParam.ofFields p.toFields = .ok p := by
  simp [DocParam.ofFields, DocParam.toFields]

theorem DocFact.ofFields_toFields {f : DocFact} (h : (Pairs.keys f.responses).Nodup) :
    DocFact.ofFields f.toFields = .ok f := by
  have hparameters :=
    tupleOf_shown (record_shown "DocParam" DocParam.ofFields_toFields) f.parameters
  simp [DocFact.ofFields, DocFact.toFields, hparameters, textMapping_shown h]

theorem DocFact.distinct_of_ofFields {fields : Fields} {f : DocFact}
    (h : DocFact.ofFields fields = .ok f) : (Pairs.keys f.responses).Nodup := by
  simp only [DocFact.ofFields, Checked.seq_eq_ok, Checked.map_eq_ok] at h
  obtain ⟨_, _, ⟨_, _, ⟨_, _, ⟨_, responses, ⟨_, _, ⟨_, _, ⟨_, _, ⟨_, -, rfl⟩, -, rfl⟩, -, rfl⟩,
    -, rfl⟩, hresponses, rfl⟩, -, rfl⟩, -, rfl⟩, -, rfl⟩ := h
  rcases orElse_eq_ok hresponses with rfl | ⟨v, hv⟩
  · simp [Pairs.keys]
  · exact textMapping_distinct hv

theorem Param.ofFields_toFields (p : Param) : Param.ofFields p.toFields = .ok p := by
  simp [Param.ofFields, Param.toFields]

theorem Descriptor.ofFields_toFields {d : Descriptor} (h : d.Valid) :
    Descriptor.ofFields d.toFields = .ok d := by
  have hparameters := listOf_shown (record_shown "Param" Param.ofFields_toFields) d.parameters
  have hpath := pathFault_eq_none.mpr h.path
  have hresponses := responsesFault_eq_none.mpr h.responses.codes
  simp [Descriptor.ofFields, Descriptor.toFields, hparameters, Checked.ensure, hpath,
    textMapping_shown h.responses.distinct, hresponses]

theorem Server.ofFields_toFields (s : Server) : Server.ofFields s.toFields = .ok s := by
  have hshown : s.toFields =
      ofNamed [("url", .str s.url), ("description", ofOptional s.description)] := by
    cases hd : s.description <;> simp [Server.toFields, ofNamed, ofOptional, hd]
  simp [Server.ofFields, hshown]

theorem RenderConfig.ofFields_toFields (c : RenderConfig) :
    RenderConfig.ofFields c.toFields = .ok c := by
  have hservers := listOf_shown (record_shown "Server" Server.ofFields_toFields) c.servers
  have hshown : c.toFields =
      ofNamed [("title", .str c.title), ("version", .str c.version),
        ("description", .str c.description),
        ("servers", .list (c.servers.map fun s => .map s.toFields)),
        ("generated_at", ofOptional c.generatedAt)] := by
    cases ht : c.generatedAt <;> simp [RenderConfig.toFields, ofNamed, ofOptional, ht]
  simp [RenderConfig.ofFields, hshown, hservers]

theorem RouteFact.ofFields_tupled (fields : Fields) :
    RouteFact.ofFields (tupled fields) = RouteFact.ofFields fields := by
  simp only [RouteFact.ofFields, needed_tupled takesTuples_methodName,
    needed_tupled takesTuples_text, needed_tupled takesTuples_integer,
    orElse_tupled takesTuples_text, orElse_tupled (takesTuples_tupleOf text)]

theorem DocFact.ofFields_tupled (fields : Fields) :
    DocFact.ofFields (tupled fields) = DocFact.ofFields fields := by
  simp only [DocFact.ofFields, needed_tupled takesTuples_integer, orElse_tupled takesTuples_text,
    orElse_tupled takesTuples_optionalText, orElse_tupled takesTuples_textMapping,
    orElse_tupled (takesTuples_tupleOf text),
    orElse_tupled (takesTuples_tupleOf (record "DocParam" DocParam.ofFields))]

/-- What is read from some fields is read again from the fields that show it. -/
def Restores {α : Type} (read : Fields → Checked α) (shown : α → Fields) : Prop :=
  ∀ fields a, read fields = .ok a → read (shown a) = .ok a

/-- Each kind of record that was read from any fields, with whatever conversions, is shown as fields
that give the same record; the rows of facts may be shown as lists or as tuples. -/
theorem records_are_read_back :
    Restores RouteFact.ofFields RouteFact.toFields ∧
    Restores RouteFact.ofFields (fun f => tupled f.toFields) ∧
    Restores DocParam.ofFields DocParam.toFields ∧
    Restores DocFact.ofFields DocFact.toFields ∧
    Restores DocFact.ofFields (fun f => tupled f.toFields) ∧
    Restores Param.ofFields Param.toFields ∧
    Restores Descriptor.ofFields Descriptor.toFields ∧
    Restores Server.ofFields Server.toFields ∧
    Restores RenderConfig.ofFields RenderConfig.toFields := by
  have hdoc : Restores DocFact.ofFields DocFact.toFields := fun _ _ h =>
    DocFact.ofFields_toFields (DocFact.distinct_of_ofFields h)
  refine ⟨fun _ f _ => f.ofFields_toFields, fun _ f _ => ?_, fun _ p _ => p.ofFields_toFields,
    hdoc, fun fields f h => ?_, fun _ p _ => p.ofFields_toFields,
    fun _ d h => Descriptor.ofFields_toFields (Descriptor.valid_of_ofFields h),
    fun _ s _ => s.ofFields_toFields, fun _ c _ => c.ofFields_toFields⟩
  · rw [RouteFact.ofFields_tupled, RouteFact.ofFields_toFields]
  · rw [DocFact.ofFields_tupled, hdoc fields f h]

/-- Values that are converted on their way into a descriptor, and a key that comes in two forms. -/
def laxFields : Fields := ofNamed [
  ("method", .str "GET"), ("path", .bytes "/a".toUTF8.toList), ("source_position", .str " 1_2.0 "),
  ("summary", .str ""),
  ("parameters", .tuple [.map (ofNamed [("name", .str "q"), ("location", .str "query"),
    ("required", .int 1), ("param_type", .bytes []), ("default", .null)])]),
  ("responses", .map [(.str "200", .str "a"), (.str "404", .str "b"),
    (.bytes "200".toUTF8.toList, .str "c")]),
  ("operation_id", .str "x"), ("documented", .str "yes")]

def laxDescriptor : Descriptor where
  method := .get
  path := "/a"
  position := 12
  summary := ""
  parameters := [{ name := "q", location := "query", required := true, type := "" }]
  responses := [("200", "c"), ("404", "b")]
  operationId := "x"
  documented := true

theorem records_are_read_back_lax : Descriptor.ofFields laxFields = .ok laxDescriptor ∧
    Descriptor.ofFields laxDescriptor.toFields = .ok laxDescriptor := by
  have hread : Descriptor.ofFields laxFields = .ok laxDescriptor := by decide +kernel
  obtain ⟨-, -, -, -, -, -, restores, -⟩ := records_are_read_back
  exact ⟨hread, restores laxFields laxDescriptor hread⟩

end RouteBook
