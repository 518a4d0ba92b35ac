import RouteBook.Proofs.Markdown
import RouteBook.Proofs.OperationId
import RouteBook.Proofs.Placeholders
import RouteBook.Proofs.Records

/-! What the keys of a descriptor's responses look like. They are meant to be three digits. Main
statement: a line feed may follow the digits, and nothing else can; where one does, the row of the
response breaks in two. -/
namespace RouteBook

def ThreeDigits (code : String) : Prop :=
  code.toList.length = 3 ∧ code.toList.all Text.isDigit = true

/-- Three digits, with at most a line feed after them. -/
def LooseCode (code : String) : Prop :=
  ThreeDigits code ∨ ∃ digits, ThreeDigits digits ∧ code = digits ++ "\n"

section Codes
variable {code digits : String}

theorem ThreeDigits.exists (h : ThreeDigits code) : ∃ a b c, code.toList = [a, b, c] ∧
    Text.isDigit a = true ∧ Text.isDigit b = true ∧ Text.isDigit c = true := by
  obtain ⟨hlength, hdigits⟩ := h
  obtain ⟨a, b, c, hcode⟩ := List.length_eq_three.mp hlength
  rw [hcode] at hdigits
  exact ⟨a, b, c, hcode, by simpa using hdigits⟩

theorem ThreeDigits.not_mem (h : ThreeDigits code) {c : Char} (hc : Text.isDigit c = false) :
    c ∉ code.toList := by
  intro hm
  rw [List.all_eq_true.mp h.2 c hm] at hc
  cases hc

theorem isStatusCode_iff : isStatusCode code = true ↔ LooseCode code := by
  constructor
  · intro h
    unfold isStatusCode at h
    split at h
    · next a b c rest hcode =>
      simp only [Bool.and_eq_true, Bool.or_eq_true, beq_iff_eq] at h
      obtain ⟨⟨⟨ha, hb⟩, hc⟩, rfl | rfl⟩ := h
      · exact .inl ⟨by simp [hcode], by simp [hcode, ha, hb, hc]⟩
      · refine .inr ⟨String.ofList [a, b, c], ⟨by simp, by simp [ha, hb, hc]⟩, ?_⟩
        rw [← String.toList_inj, hcode]
        simp
    · cases h
  · rintro (h | ⟨digits, h, rfl⟩) <;> obtain ⟨a, b, c, hcode, ha, hb, hc⟩ := h.exists <;>
      simp [isStatusCode, hcode, ha, hb, hc]

/-- A line feed is all that keeps a loose code from being three digits. -/
theorem LooseCode.threeDigits_iff (h : LooseCode code) : ThreeDigits code ↔ '\n' ∉ code.toList := by
  refine ⟨fun hd => hd.not_mem (by decide), fun hn => ?_⟩
  rcases h with hd | ⟨digits, -, rfl⟩
  · exact hd
  · exact absurd (by simp) hn

end Codes

theorem Descriptor.check_eq_ok {d e : Descriptor} : d.check = .ok e ↔
    e = d ∧ d.path ≠ "" ∧ ∀ code ∈ Pairs.keys d.responses, LooseCode code := by
  simp only [check, Checked.seq_eq_ok, Checked.map_eq_ok, Checked.under_eq_ok,
    Checked.ensure_eq_ok, pathFault_eq_none, responsesFault_eq_none, isStatusCode_iff]
  constructor
  · rintro ⟨_, _, ⟨_, ⟨hok, hp⟩, rfl⟩, ⟨hok', hr⟩, rfl⟩
    cases hok
    cases hok'
    exact ⟨rfl, hp, hr⟩
  · rintro ⟨rfl, hp, hr⟩
    exact ⟨_, _, ⟨_, ⟨rfl, hp⟩, rfl⟩, ⟨rfl, hr⟩, rfl⟩

/-- A descriptor comes from some fields exactly if it keeps the rules. -/
theorem Descriptor.exists_fields_iff {d : Descriptor} :
    (∃ fields, Descriptor.ofFields fields = .ok d) ↔ d.Valid :=
  ⟨fun ⟨_, h⟩ => valid_of_ofFields h, fun h => ⟨d.toFields, ofFields_toFields h⟩⟩

theorem Descriptor.valid_iff {d : Descriptor} : d.Valid ↔ d.path ≠ "" ∧
    (Pairs.keys d.responses).Nodup ∧ ∀ code ∈ Pairs.keys d.responses, LooseCode code := by
  simp only [← isStatusCode_iff]
  exact ⟨fun h => ⟨h.path, h.responses.distinct, h.responses.codes⟩,
    fun ⟨hp, hd, hc⟩ => ⟨hp, hc, hd⟩⟩

namespace OperationId

theorem map_assign {β : Type} (f : Descriptor → β)
    (hf : ∀ d id, f { d with operationId := id } = f d) (ds : List Descriptor) :
    (assign ds).map f = ds.map f := by
  have hfrom : ∀ (ds : List Descriptor) (r : Registry), (assignFrom r ds).map f = ds.map f := by
    intro ds
    induction ds with
    | nil => exact fun _ => rfl
    | cons d ds ih => exact fun r => congrArg₂ List.cons (hf d _) (ih _)
  exact hfrom ds _

end OperationId

namespace Markdown

/-- The lines that an item takes. -/
def linesOf (item : String) : List String := (item.toList.splitOn '\n').map String.ofList

theorem linesOf_of_not_mem {item : String} (h : '\n' ∉ item.toList) : linesOf item = [item] := by
  rw [linesOf, List.splitOn_eq_singleton h, List.map_singleton, String.ofList_toList]

theorem linesOf_append (first rest : String) :
    linesOf (first ++ "\n" ++ rest) = linesOf first ++ linesOf rest := by
  have hcut : (first ++ "\n" ++ rest).toList = first.toList ++ '\n' :: rest.toList := by simp
  rw [linesOf, hcut, List.splitOn_append_cons_self, List.map_append]
  rfl

theorem mem_linesOf_render {ds : List Descriptor} (config : RenderConfig) {d : Descriptor}
    {item line : String} (hd : d ∈ ds) (hi : item ∈ route d) (hl : line ∈ linesOf item) :
    line ∈ linesOf (render ds config) := by
  obtain ⟨g, hg, hdg⟩ := Grouping.exists_group hd
  have hroute : item ∈ group g := List.mem_append_right _ (List.mem_flatMap.mpr ⟨d, hdg, hi⟩)
  rw [linesOf, lines_render, List.map_flatMap]
  exact List.mem_flatMap.mpr
    ⟨item, List.mem_append_right _ (List.mem_flatMap.mpr ⟨g, hg, hroute⟩), hl⟩

end Markdown

open Markdown (linesOf responseRow cellOrDash)

/-- A descriptor can come from fields exactly if it has a path and all its codes are loose ones,
without repetition; they are all three digits exactly if none has a line feed. Completing a route
keeps to the same rules, and giving ids changes nothing about them. In a row of responses a code
shows as itself, or, where a line feed follows it, ends its line too early. -/
theorem descriptors_keep_loose_codes (d : Descriptor) :
    ((∃ fields, Descriptor.ofFields fields = .ok d) ↔ d.path ≠ "" ∧
      (Pairs.keys d.responses).Nodup ∧ ∀ code ∈ Pairs.keys d.responses, LooseCode code) ∧
    ((∃ fields, Descriptor.ofFields fields = .ok d) →
      ((∀ code ∈ Pairs.keys d.responses, ThreeDigits code) ↔
        ∀ code ∈ Pairs.keys d.responses, '\n' ∉ code.toList)) ∧
    (∀ route doc, Endpoint.normalize route doc = .ok d ↔
      d = Endpoint.draft route doc ∧ d.path ≠ "" ∧
        ∀ code ∈ Pairs.keys d.responses, LooseCode code) ∧
    (∀ ds, (OperationId.assign ds).map (fun e => (e.path, e.responses)) =
      ds.map fun e => (e.path, e.responses)) ∧
    (∀ digits text, ThreeDigits digits →
      linesOf (responseRow (digits, text)) =
        ["| " ++ digits ++ " | " ++ cellOrDash text ++ " |"] ∧
      linesOf (responseRow (digits ++ "\n", text)) =
        ["| " ++ digits, " | " ++ cellOrDash text ++ " |"]) := by
  have hfields := Descriptor.exists_fields_iff.trans (Descriptor.valid_iff (d := d))
  refine ⟨hfields, fun h => ?_, fun route doc => ?_, OperationId.map_assign _ fun _ _ => rfl,
    fun digits text hd => ?_⟩
  · obtain ⟨-, -, hloose⟩ := hfields.mp h
    exact forall_congr' fun code => forall_congr' fun hc => (hloose code hc).threeDigits_iff
  · refine Descriptor.check_eq_ok.trans (and_congr_right ?_)
    rintro rfl
    rfl
  · have hdigits : '\n' ∉ digits.toList := hd.not_mem (by decide)
    have hcell := Markdown.not_mem_cellOrDash text
    have hbroken : responseRow (digits ++ "\n", text) =
        ("| " ++ digits) ++ "\n" ++ (" | " ++ cellOrDash text ++ " |") := by
      rw [← String.toList_inj]
      simp [responseRow]
    constructor
    · refine Markdown.linesOf_of_not_mem ?_
      simp [responseRow, hdigits, hcell]
    · rw [hbroken, Markdown.linesOf_append, Markdown.linesOf_of_not_mem (by simp [hdigits]),
        Markdown.linesOf_of_not_mem (by simp [hcell]), List.singleton_append]

/-- Fields with two codes, one of them with a line feed at its end. -/
def brokenFields : Field.Fields := Field.ofNamed [
  ("method", .str "GET"), ("path", .str "/"), ("summary", .str ""),
  ("responses", Field.ofMapping [("\u0663\u0660\u0664", ""), ("200\n", "b|c")]),
  ("operation_id", .str "")]

def brokenDescriptor : Descriptor where
  method := .get
  path := "/"
  summary := ""
  responses := [("\u0663\u0660\u0664", ""), ("200\n", "b|c")]
  operationId := ""

theorem descriptors_keep_loose_codes_broken :
    (∃ fields, Descriptor.ofFields fields = .ok brokenDescriptor) ∧
    (ThreeDigits "200" ∧
      linesOf (responseRow ("200" ++ "\n", "b|c")) = ["| 200", " | b\\|c |"]) := by
  obtain ⟨hexists, -, -, -, hrow⟩ := descriptors_keep_loose_codes brokenDescriptor
  have hplain : ThreeDigits "200" := ⟨by decide, by decide⟩
  have hforeign : ThreeDigits "\u0663\u0660\u0664" := ⟨by decide, by decide⟩
  refine ⟨hexists.mpr ⟨by decide, by decide, ?_⟩, hplain,
    (hrow "200" "b|c" hplain).2⟩
  simp only [brokenDescriptor, Pairs.keys, List.map_cons, List.map_nil, List.forall_mem_cons]
  exact ⟨.inl hforeign, .inr ⟨"200", hplain, rfl⟩, by simp⟩

/-- A line feed after its digits passes with a status code, and the Markdown document then has a
line that holds nothing but the start of a row. -/
theorem line_feed_passes_for_status_code :
    Descriptor.ofFields brokenFields = .ok brokenDescriptor ∧
    "200\n" ∈ Pairs.keys brokenDescriptor.responses ∧ ¬ ThreeDigits "200\n" ∧
    "| 200" ∈ linesOf (Markdown.render [brokenDescriptor] {}) := by
  have hread : Descriptor.ofFields brokenFields = .ok brokenDescriptor := by decide +kernel
  have hrow : responseRow ("200\n", "b|c") ∈ Markdown.route brokenDescriptor := by
    simp [Markdown.route, brokenDescriptor]
  have hline : "| 200" ∈ linesOf (responseRow ("200\n", "b|c")) := by decide
  exact ⟨hread, by decide, fun h => absurd h.1 (by decide),
    Markdown.mem_linesOf_render {} (List.mem_singleton_self _) hrow hline⟩

end RouteBook
