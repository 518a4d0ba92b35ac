import Mathlib.Data.List.Forall2
import RouteBook.Proofs.DocForms
import RouteBook.Proofs.Endpoint

/-! The placeholders of a path, and which parameters they make parameters of the path. Main
statement: one look from left to right finds every name after a colon, each as long as it can be. -/
namespace RouteBook.Endpoint
open Text (Run exists_run)
variable {c : Char} {s word tail name : List Char}

/-- A name that stands after a colon somewhere in a text and goes on as far as it can. -/
def Occurs (name s : List Char) : Prop :=
  name ≠ [] ∧ ∃ front back, s = front ++ ':' :: (name ++ back) ∧ Run isNameChar name back

theorem not_occurs_nil (name : List Char) : ¬ Occurs name [] := by
  intro ⟨_, front, back, h, _⟩
  cases front <;> cases h

theorem occurs_cons : Occurs name (c :: s) ↔
    (c = ':' ∧ name ≠ [] ∧ ∃ back, s = name ++ back ∧ Run isNameChar name back) ∨
      Occurs name s := by
  constructor
  · intro ⟨hne, front, back, h, hrun⟩
    cases front with
    | nil =>
      obtain ⟨rfl, rfl⟩ := List.cons.inj h
      exact .inl ⟨rfl, hne, back, rfl, hrun⟩
    | cons a front =>
      obtain ⟨rfl, rfl⟩ := List.cons.inj h
      exact .inr ⟨hne, front, back, rfl, hrun⟩
  · intro h
    obtain ⟨rfl, hne, back, rfl, hrun⟩ | ⟨hne, front, back, rfl, hrun⟩ := h
    · exact ⟨hne, [], back, rfl, hrun⟩
    · exact ⟨hne, c :: front, back, rfl, hrun⟩

theorem occurs_cons_of_ne (hc : c ≠ ':') : Occurs name (c :: s) ↔ Occurs name s := by
  rw [occurs_cons, or_iff_right fun h => hc h.1]

theorem occurs_append (hword : ∀ c ∈ word, isNameChar c = true) :
    Occurs name (word ++ tail) ↔ Occurs name tail := by
  induction word with
  | nil => rfl
  | cons c word ih =>
    have hc : c ≠ ':' := by
      intro he
      have hcolon := hword c (by simp)
      rw [he] at hcolon
      exact absurd hcolon (by decide)
    rw [List.cons_append, occurs_cons_of_ne hc, ih fun d hd => hword d (by simp [hd])]

theorem occurs_colon (h : Run isNameChar word tail) :
    Occurs name (':' :: (word ++ tail)) ↔ (word ≠ [] ∧ name = word) ∨ Occurs name tail := by
  rw [occurs_cons, occurs_append h.all]
  refine or_congr_left ?_
  constructor
  · intro ⟨_, hne, back, heq, hrun⟩
    have hname : name = word := by rw [← hrun.takeWhile, ← heq, h.takeWhile]
    exact ⟨hname ▸ hne, hname⟩
  · intro ⟨hne, hname⟩
    exact ⟨rfl, hname ▸ hne, tail, by rw [hname], hname ▸ h⟩

theorem placeholdersIn_colon (h : Run isNameChar word tail) :
    placeholdersIn (':' :: (word ++ tail)) =
      if word = [] then placeholdersIn tail
      else String.ofList word :: placeholdersIn tail := by
  rw [placeholdersIn, h.takeWhile]
  cases word with
  | nil => rfl
  | cons c word => simp

/-- The names that are found are those that occur. -/
theorem mem_placeholdersIn (name : String) (s : List Char) :
    name ∈ placeholdersIn s ↔ Occurs name.toList s := by
  -- Induction on the length, since after a name the search goes on behind it.
  induction hn : s.length using Nat.strongRecOn generalizing s with
  | ind n ih =>
    cases s with
    | nil => simp [placeholdersIn, not_occurs_nil]
    | cons c s =>
      have hlen : s.length < n := by simp only [List.length_cons] at hn; omega
      by_cases hc : c = ':'
      · obtain ⟨word, tail, rfl, hrun⟩ := exists_run isNameChar s
        have htail := ih tail.length (by simp only [List.length_append] at hlen; omega) tail rfl
        rw [hc, placeholdersIn_colon hrun, occurs_colon hrun, ← htail]
        by_cases hw : word = []
        · simp [hw]
        · rw [if_neg hw, List.mem_cons, ← String.toList_inj, String.toList_ofList]
          simp [hw]
      · rw [placeholdersIn, occurs_cons_of_ne hc]
        · exact ih s.length hlen s rfl
        · exact hc

/-- A placeholder of a path: a name after a colon, of which no longer name can be made there. -/
def IsPlaceholder (path name : String) : Prop :=
  name ≠ "" ∧ (∀ c ∈ name.toList, isNameChar c = true) ∧
    ∃ pre post, path = pre ++ ":" ++ name ++ post ∧ ∀ c ∈ post.toList.head?, isNameChar c = false

theorem isPlaceholder_iff_occurs (path name : String) :
    IsPlaceholder path name ↔ Occurs name.toList path.toList := by
  constructor
  · intro ⟨hne, hall, pre, post, hpath, hstop⟩
    exact ⟨by simpa using hne, pre.toList, post.toList, by simp [hpath], hall, hstop⟩
  · intro ⟨hne, front, back, hpath, hall, hstop⟩
    refine ⟨by simpa using hne, hall, String.ofList front, String.ofList back, ?_, ?_⟩
    · rw [← String.toList_inj, hpath]
      simp
    · simpa using hstop

theorem mem_placeholders (path name : String) :
    name ∈ placeholders path ↔ IsPlaceholder path name := by
  rw [placeholders, List.mem_eraseDups, mem_placeholdersIn, isPlaceholder_iff_occurs]

/-- A parameter as a comment states it, with its place in an endpoint. -/
structure Places (path : String) (p : DocParam) (q : Param) : Prop where
  name : q.name = p.name
  type : q.type = p.type
  required : q.required = p.required
  description : q.description = p.description
  default : q.default = p.default
  inPath : IsPlaceholder path p.name → q.location = "path"
  inQuery : ¬ IsPlaceholder path p.name → q.location = "query"

theorem places_paramOf (path : String) (p : DocParam) :
    Places path p (paramOf (placeholders path) p) := by
  refine ⟨rfl, rfl, rfl, rfl, rfl, fun h => ?_, fun h => ?_⟩
  · rw [← mem_placeholders] at h
    simp [paramOf, h]
  · rw [← mem_placeholders] at h
    simp [paramOf, h]

theorem forall₂_places (path : String) (ps : List DocParam) :
    List.Forall₂ (Places path) ps (ps.map (paramOf (placeholders path))) := by
  induction ps with
  | nil => exact .nil
  | cons p ps ih => exact .cons (places_paramOf path p) ih

theorem eq_draft_of_normalize {route : RouteFact} {doc : Option DocFact} {d : Descriptor}
    (h : normalize route doc = .ok d) : d = draft route doc := by
  obtain ⟨f, r, hf, -, rfl⟩ := Checked.seq_eq_ok.mp h
  obtain ⟨p, -, rfl⟩ := Checked.map_eq_ok.mp hf
  rfl

theorem pathOf_some (route : RouteFact) (doc : DocFact) :
    pathOf route (some doc) = (doc.explicitPath.filter (· ≠ "")).getD route.path := by
  cases hp : doc.explicitPath with
  | none => simp [pathOf, hp]
  | some p => by_cases he : p = "" <;> simp [pathOf, hp, he, Option.filter]

/-- A finished endpoint has the path that its comment states, or else the registered one, with the
id made from it. It has the comment's parameters in their order, each in the path if it is a
placeholder of this path and else in the query; and the placeholders that are found are all names
after colons that go on as far as they can. -/
theorem parameters_are_placed {route : RouteFact} {doc : DocFact} {d : Descriptor}
    (h : normalize route (some doc) = .ok d) :
    ∃ path, path = (doc.explicitPath.filter (· ≠ "")).getD route.path ∧ d.path = path ∧
      d.operationId = OperationId.make route.method.name path ∧
      List.Forall₂ (Places path) doc.parameters d.parameters ∧
      ∀ name, name ∈ placeholders path ↔ IsPlaceholder path name := by
  rw [eq_draft_of_normalize h, ← pathOf_some]
  exact ⟨_, rfl, rfl, rfl, forall₂_places _ doc.parameters, mem_placeholders _⟩

/-- A comment whose path has two colons in a row and two names in one part. -/
def crowded : DocFact where
  explicitPath := some "/::id:to$/x:id2"
  parameters := ["id", "to", "to$", "id2", "x", ""].map fun name => { name, type := "" }
  endPosition := 0

def crowdedRoute : RouteFact := { method := .get, path := "/:to", position := 0 }

theorem parameters_are_placed_crowded :
    ∃ d, normalize crowdedRoute (some crowded) = .ok d ∧
      d.operationId = "get___id_to__x_id2" ∧
      d.parameters.map (·.location) = ["path", "query", "path", "path", "query", "query"] ∧
      IsPlaceholder d.path "id2" ∧ ¬ IsPlaceholder d.path "to" := by
  have hpath : crowdedRoute.path ≠ "" := by decide
  have hmap : ∀ f, some crowded = some f → StatusMap f.responses := by
    intro f hf
    obtain rfl := Option.some.inj hf
    exact StatusMap.nil
  have hd := normalize_eq_draft hpath hmap
  obtain ⟨path, hof, hp, hid, hparams, hmem⟩ := parameters_are_placed hd
  obtain rfl : path = "/::id:to$/x:id2" := hof
  refine ⟨_, hd, ?_, ?_, ?_, ?_⟩
  · rw [hid]
    decide +kernel
  · decide +kernel
  · rw [hp, ← hmem]
    decide +kernel
  · rw [hp, ← hmem]
    decide +kernel

end RouteBook.Endpoint
