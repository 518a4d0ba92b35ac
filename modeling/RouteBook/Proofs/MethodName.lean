import RouteBook.Extraction
import RouteBook.Proofs.LetterCase
import RouteBook.Proofs.RouteOrder
import RouteBook.Proofs.Utf8

/-! Which names are taken for a method. They are meant to be those that have the method's name as
their small form. Main statement: all of these are taken, and besides them exactly the names that
have this form after letters in disguise are replaced; a call registers a route of the method
accordingly. -/
namespace RouteBook

namespace Method
variable {m : Method} {name : String}

/-- The letters in disguise that pass for letters of the method's name. -/
def masks : Method → List Char
  | post => ['\u017F', '\uFB05', '\uFB06']
  | options => ['\u0131', '\u017F']
  | _ => []

/-- A name that is the method's in some letter case, but for letters in disguise. -/
def Disguised (m : Method) (name : String) : Prop :=
  Text.lower (Text.unmasked name) = Text.lower m.name ∧ ∃ c ∈ m.masks, c ∈ name.toList

theorem isCapitals_name (m : Method) : Text.IsCapitals m.name := by
  have h : m.name.toList.all (fun c => c.isUpper && c != 'K') = true := by cases m <;> decide
  simpa [Text.IsCapitals] using h

theorem masks_foreign (m : Method) : ∀ c ∈ m.masks, 128 ≤ c.toNat := by
  have h : m.masks.all (128 ≤ ·.toNat) = true := by cases m <;> decide
  simpa using h

theorem mem_masks (m : Method) : ∀ p ∈ Text.disguises,
    p.2.map Char.toLower <:+: m.name.toList.map Char.toLower → p.1 ∈ m.masks := by
  cases m <;> decide

theorem ofAnyCase?_iff_unmasked (m : Method) (name : String) :
    ofAnyCase? name = some m ↔ Text.lower (Text.unmasked name) = Text.lower m.name :=
  ofAnyCase?_eq_some_iff.trans m.isCapitals_name.upper_eq_iff

/-- What passes for the method's name without the listed letters has no letter in disguise. -/
theorem unmasked_of_not_mem (h : Text.lower (Text.unmasked name) = Text.lower m.name)
    (hm : ∀ c ∈ m.masks, c ∉ name.toList) : Text.unmasked name = name := by
  rw [m.isCapitals_name.lower_eq_iff, Text.unmasked, String.toList_ofList] at h
  have hplain : ∀ c ∈ name.toList, Text.unmask c = [c] := by
    intro c hc
    refine Text.unmask_of_forall_ne ?_
    rintro p hp rfl
    have hpart := (List.infix_flatMap_of_mem hc Text.unmask).map Char.toLower
    rw [h, (Text.disguises_spec p hp).2.1] at hpart
    exact hm p.1 (m.mem_masks p hp hpart) hc
  rw [Text.unmasked, List.flatMap_congr hplain, List.flatMap_singleton', String.ofList_toList]

/-- A name has the small form of the method's name exactly if it passes for it without any letter
in disguise. -/
theorem lower_eq_iff (m : Method) (name : String) : Text.lower name = Text.lower m.name ↔
    Text.lower (Text.unmasked name) = Text.lower m.name ∧ ¬ m.Disguised name := by
  constructor
  · intro h
    have hascii := m.isCapitals_name.ascii_of_small (m.isCapitals_name.lower_eq_iff.mp h)
    refine ⟨(Text.unmasked_ascii hascii).symm ▸ h, ?_⟩
    rintro ⟨-, c, hc, hname⟩
    have hforeign := m.masks_foreign c hc
    have hlow := hascii c hname
    omega
  · rintro ⟨h, hplain⟩
    have hm : ∀ c ∈ m.masks, c ∉ name.toList := fun c hc hname => hplain ⟨h, c, hc, hname⟩
    rw [unmasked_of_not_mem h hm] at h
    exact h

end Method

namespace RouteCalls
open Source (Tree)

/-- Arguments that start with a path. -/
def GivesPath (args : List Tree) : Prop :=
  ∃ raw rest path, PathArguments raw rest args ∧ Literal.decode raw.toList = .ok path ∧ path ≠ []

/-- A node that registers a route of the method. -/
def IsRouteOf (m : Method) (file : String) (node : Tree) : Prop :=
  ∃ place r, route? file node = .ok (some (place, r)) ∧ r.method = m

section Calls
variable {file name : String} {m : Method} {object : Tree} {args : List Tree} {start place : Nat}

theorem givesPath_iff :
    GivesPath args ↔ ∃ path handlers, pathAndHandlers? args = .ok (some (path, handlers)) := by
  constructor
  · rintro ⟨raw, rest, path, hargs, hd, hne⟩
    exact ⟨_, _, by rw [pathAndHandlers?_literal hargs hd, if_neg hne]⟩
  · rintro ⟨path, handlers, h⟩
    by_cases hargs : ∃ raw rest, PathArguments raw rest args
    · obtain ⟨raw, rest, hargs⟩ := hargs
      obtain ⟨notes, first, hnotes, hfixed⟩ := id hargs
      obtain ⟨start, hliteral⟩ := hfixed.literal?
      rw [pathAndHandlers?, filter_arguments hnotes hfixed] at h
      simp only [hliteral] at h
      cases hd : Literal.decode raw.toList with
      | error e => simp [hd] at h
      | ok path =>
        refine ⟨raw, rest, path, hargs, hd, ?_⟩
        rintro rfl
        simp [hd] at h
    · rw [pathAndHandlers?_no_literal (by simpa using hargs)] at h
      cases h

theorem route?_of_not_taken (h : Method.ofAnyCase? name = none) :
    route? file (.call start (.member object place name) args) = .ok none := by
  rw [route?, h]

theorem isRouteOf_call_iff : IsRouteOf m file (.call start (.member object place name) args) ↔
    Method.ofAnyCase? name = some m ∧ GivesPath args := by
  rw [givesPath_iff]
  cases hm : Method.ofAnyCase? name with
  | none => simp [IsRouteOf, route?_of_not_taken hm]
  | some method =>
    rw [IsRouteOf, route?, hm]
    cases hp : pathAndHandlers? args with
    | error b => simp [bind, Except.bind]
    | ok found =>
      cases found with
      | none => simp [bind, Except.bind, pure, Except.pure]
      | some p =>
        obtain ⟨path, handlers⟩ := p
        simp [bind, Except.bind, pure, Except.pure]

theorem exists_givesPath : ∃ args, GivesPath args :=
  ⟨_, "/", [], ['/'], .mk [] (.string 0 "/") nofun (.string 0 "/"), by decide +kernel, by decide⟩

/-- Calls register routes of a method by the small form of their names exactly if the name is not
disguised. -/
theorem calls_follow_names_iff :
    (∀ file start object place args,
      IsRouteOf m file (.call start (.member object place name) args) ↔
        Text.lower name = Text.lower m.name ∧ GivesPath args) ↔ ¬ m.Disguised name := by
  constructor
  · intro h hd
    obtain ⟨args, hargs⟩ := exists_givesPath
    have hroute : IsRouteOf m "" (.call 0 (.member .leaf 0 name) args) :=
      isRouteOf_call_iff.mpr ⟨(m.ofAnyCase?_iff_unmasked name).mpr hd.1, hargs⟩
    have hname := ((h _ _ _ _ _).mp hroute).1
    exact ((m.lower_eq_iff name).mp hname).2 hd
  · intro hplain file start object place args
    rw [isRouteOf_call_iff, m.ofAnyCase?_iff_unmasked, m.lower_eq_iff name]
    simp [hplain]

end Calls

end RouteCalls

open RouteCalls (GivesPath IsRouteOf)

/-- A name is taken for a method exactly if it has the small form of the method's name after its
letters in disguise are replaced. So every name that has this form as it stands is taken, and the
two rules agree exactly where the name is not disguised. A call of a member registers a route of
the method by the same rule, if its arguments start with a path; under any other name it registers
nothing, whatever its arguments are. -/
theorem methods_match_unless_disguised (name : String) (m : Method) :
    (Method.ofAnyCase? name = some m ↔ Text.lower (Text.unmasked name) = Text.lower m.name) ∧
    (Text.lower name = Text.lower m.name → Method.ofAnyCase? name = some m) ∧
    ((Method.ofAnyCase? name = some m ↔ Text.lower name = Text.lower m.name) ↔
      ¬ m.Disguised name) ∧
    (∀ file start object place args,
      IsRouteOf m file (.call start (.member object place name) args) ↔
        Text.lower (Text.unmasked name) = Text.lower m.name ∧ GivesPath args) ∧
    ((∀ file start object place args,
      IsRouteOf m file (.call start (.member object place name) args) ↔
        Text.lower name = Text.lower m.name ∧ GivesPath args) ↔ ¬ m.Disguised name) ∧
    ((∀ n : Method, Text.lower (Text.unmasked name) ≠ Text.lower n.name) →
      ∀ file start object place args,
        RouteCalls.route? file (.call start (.member object place name) args) = .ok none) := by
  have htaken := m.ofAnyCase?_iff_unmasked name
  refine ⟨htaken, fun h => htaken.mpr ((m.lower_eq_iff name).mp h).1, ?_, ?_,
    RouteCalls.calls_follow_names_iff, ?_⟩
  · rw [htaken, m.lower_eq_iff name]
    constructor
    · intro h hd
      exact (h.mp hd.1).2 hd
    · intro hplain
      simp [hplain]
  · intro file start object place args
    rw [RouteCalls.isRouteOf_call_iff, htaken]
  · intro hother file start object place args
    refine RouteCalls.route?_of_not_taken (Option.eq_none_iff_forall_ne_some.mpr fun n hn => ?_)
    exact hother n ((n.ofAnyCase?_iff_unmasked name).mp hn)

theorem methods_match_unless_disguised_ligature :
    (Text.lower "PosT" = Text.lower Method.post.name ∧ Method.ofAnyCase? "PosT" = some .post) ∧
    (Method.post.Disguised "Po\uFB06" ∧ Method.ofAnyCase? "Po\uFB06" = some .post) ∧
    ((∀ n : Method, Text.lower (Text.unmasked "ho\uFB06") ≠ Text.lower n.name) ∧
      ∀ file start object place args,
        RouteCalls.route? file (.call start (.member object place "ho\uFB06") args) =
          .ok none) := by
  have hsmall : Text.lower "PosT" = Text.lower Method.post.name := by decide +kernel
  have hdisguised : Method.post.Disguised "Po\uFB06" := ⟨by decide +kernel, '\uFB06', by decide⟩
  have hother : ∀ n : Method, Text.lower (Text.unmasked "ho\uFB06") ≠ Text.lower n.name := by
    intro n
    cases n <;> decide +kernel
  obtain ⟨-, taken, -⟩ := methods_match_unless_disguised "PosT" .post
  obtain ⟨iff_unmasked, -⟩ := methods_match_unless_disguised "Po\uFB06" .post
  obtain ⟨-, -, -, -, -, nothing⟩ := methods_match_unless_disguised "ho\uFB06" .post
  exact ⟨⟨hsmall, taken hsmall⟩, ⟨hdisguised, iff_unmasked.mpr hdisguised.1⟩, hother,
    nothing hother⟩

/-- A name with a dotless i is taken for a method, though its small form is that of no method, and
a text that calls it has a route. -/
theorem dotless_i_passes_for_i :
    Method.ofAnyCase? "opt\u0131ons" = some .options ∧
    (∀ m : Method, Text.lower "opt\u0131ons" ≠ Text.lower m.name) ∧
    Extraction.routes (Text.encode "a.opt\u0131ons('/')".toList) "a.js" =
      .ok [{ method := .options, path := "/", handlers := [], position := 0, file := "a.js" }] := by
  refine ⟨by decide +kernel, fun m => ?_, by decide +kernel⟩
  cases m <;> decide +kernel

end RouteBook
