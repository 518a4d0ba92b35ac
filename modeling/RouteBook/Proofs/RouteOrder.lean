import Mathlib.Data.List.Lex
import Mathlib.Data.List.Sort
import RouteBook.Proofs.RouteCalls
import RouteBook.Proofs.Source.Preorder

/-! Which routes are found in a tree, and in which order. -/
namespace RouteBook

theorem Method.ofAnyCase?_eq_some_iff {name : String} {m : Method} :
    Method.ofAnyCase? name = some m ↔ Text.upper name = m.name := by
  constructor
  · intro h
    rw [ofAnyCase?, ofName?] at h
    have hname := List.find?_some h
    exact (eq_of_beq hname).symm
  · intro h
    rw [ofAnyCase?, h, ofName?_name]

namespace RouteCalls
open Outcome
open Source (Tree)
open Source.Tree (Precedes)

/-- A literal without anything to compute, and the text between its quotes. -/
inductive FixedText : Tree → String → Prop
  | string (start : Nat) (raw : String) : FixedText (.string start raw) raw
  | template (start : Nat) (raw : String) : FixedText (.template start raw []) raw

/-- Arguments of which the first that is no comment is a literal, and those after it. -/
inductive PathArguments (raw : String) (rest : List Tree) : List Tree → Prop
  | mk (notes : List Tree) (first : Tree) (comments : ∀ n ∈ notes, n.isComment = true)
      (fixed : FixedText first raw) : PathArguments raw rest (notes ++ first :: rest)

/-- A call of a member that is named like a method, with a literal as the first argument. -/
inductive PathCall (method : Method) (nameStart start : Nat) (raw : String) (rest : List Tree) :
    Tree → Prop
  | mk (object : Tree) (name : String) (args : List Tree) (named : Text.upper name = method.name)
      (path : PathArguments raw rest args) :
      PathCall method nameStart start raw rest (.call start (.member object nameStart name) args)

/-- A call that registers a route, with the place of the method's name. -/
inductive RouteCall (file : String) (node : Tree) (nameStart : Nat) : RouteFact → Prop
  | mk {method : Method} {start : Nat} {raw : String} {rest : List Tree} {path : List Char}
      (call : PathCall method nameStart start raw rest node)
      (denotes : Literal.decode raw.toList = .ok path) (nonempty : path ≠ []) :
      RouteCall file node nameStart
        { method, path := String.ofList path, handlers := rest.filterMap identifier?,
          position := start, file }

/-- The literal of a call, if it has one for a path, can be decoded. -/
def Decodable (node : Tree) : Prop :=
  ∀ method nameStart start raw rest, PathCall method nameStart start raw rest node →
    ∃ path, Literal.decode raw.toList = .ok path

section Matching
variable {file raw : String} {node : Tree} {method : Method} {nameStart start : Nat}
  {args rest : List Tree} {path : List Char} {r : RouteFact}

theorem FixedText.literal? {first : Tree} (h : FixedText first raw) :
    ∃ start, literal? first = some (start, raw) := by
  cases h with
  | string start => exact ⟨start, rfl⟩
  | template start => exact ⟨start, rfl⟩

theorem fixedText_of_literal? {first : Tree} (h : literal? first = some (start, raw)) :
    FixedText first raw := by
  unfold RouteCalls.literal? at h
  split at h
  · obtain ⟨-, rfl⟩ := Prod.mk.inj (Option.some.inj h)
    exact .string _ _
  · obtain ⟨-, rfl⟩ := Prod.mk.inj (Option.some.inj h)
    exact .template _ _
  · cases h

theorem FixedText.not_isComment {first : Tree} (h : FixedText first raw) :
    first.isComment = false := by
  cases h <;> rfl

theorem filterMap_identifier? (ts : List Tree) :
    (ts.filter (!·.isComment)).filterMap identifier? = ts.filterMap identifier? := by
  rw [List.filterMap_filter]
  refine List.filterMap_congr fun t _ => ?_
  cases t <;> rfl

theorem filter_arguments {notes : List Tree} {first : Tree}
    (hnotes : ∀ n ∈ notes, n.isComment = true) (hfixed : FixedText first raw) :
    (notes ++ first :: rest).filter (!·.isComment) = first :: rest.filter (!·.isComment) :=
  List.filter_eq_cons_iff.mpr
    ⟨notes, rest, rfl, by simpa using hnotes, by simp [hfixed.not_isComment], rfl⟩

theorem pathAndHandlers?_literal (h : PathArguments raw rest args)
    (hd : Literal.decode raw.toList = .ok path) :
    pathAndHandlers? args =
      .ok (if path = [] then none else some (String.ofList path, rest.filterMap identifier?)) := by
  obtain ⟨notes, first, hnotes, hfixed⟩ := h
  obtain ⟨start, hliteral⟩ := hfixed.literal?
  cases path <;>
    simp [pathAndHandlers?, filter_arguments hnotes hfixed, hliteral, hd, filterMap_identifier?]

theorem pathAndHandlers?_no_literal (h : ∀ raw rest, ¬ PathArguments raw rest args) :
    pathAndHandlers? args = .ok none := by
  rw [pathAndHandlers?]
  split
  · rfl
  · rename_i first kept hfilter
    cases hl : literal? first with
    | none => rfl
    | some l =>
      obtain ⟨notes, rest, rfl, hnotes, -, -⟩ := List.filter_eq_cons_iff.mp hfilter
      exact absurd (.mk notes first (by simpa using hnotes) (fixedText_of_literal? hl)) (h l.2 rest)

theorem route?_pathCall (file : String) (h : PathCall method nameStart start raw rest node)
    (hd : Literal.decode raw.toList = .ok path) :
    route? file node = .ok (if path = [] then none else
      some (nameStart, { method, path := String.ofList path, handlers := rest.filterMap identifier?,
                         position := start, file })) := by
  obtain ⟨object, name, args, hname, hargs⟩ := h
  rw [route?, Method.ofAnyCase?_eq_some_iff.mpr hname, pathAndHandlers?_literal hargs hd]
  cases path <;> rfl

theorem route?_no_pathCall (file : String)
    (h : ∀ method nameStart start raw rest, ¬ PathCall method nameStart start raw rest node) :
    route? file node = .ok none := by
  unfold route?
  split
  · rename_i start object nameStart name args
    cases hm : Method.ofAnyCase? name with
    | none => rfl
    | some method =>
      have hname := Method.ofAnyCase?_eq_some_iff.mp hm
      have hargs := pathAndHandlers?_no_literal fun raw rest hp =>
        h method nameStart start raw rest (.mk object name args hname hp)
      rw [hargs]
      rfl
  · rfl

theorem RouteCall.route?_eq (h : RouteCall file node nameStart r) :
    route? file node = .ok (some (nameStart, r)) := by
  obtain ⟨hcall, hd, hne⟩ := h
  rw [route?_pathCall file hcall hd, if_neg hne]

theorem decodable_of_fault? (h : Literal.fault? (routeNumbers node) = none) : Decodable node := by
  intro method nameStart start raw rest hcall
  have hnumbers : routeNumbers node = Literal.escapeNumbers raw.toList := by
    obtain ⟨object, name, args, hname, hargs⟩ := hcall
    obtain ⟨notes, first, hnotes, hfixed⟩ := hargs
    obtain ⟨start, hliteral⟩ := hfixed.literal?
    simp [routeNumbers, Method.ofAnyCase?_eq_some_iff.mpr hname, pathNumbers,
      filter_arguments hnotes hfixed, hliteral]
  cases hd : Literal.decode raw.toList with
  | ok path => exact ⟨path, rfl⟩
  | error e =>
    rw [Literal.decode_error_iff, ← hnumbers, h] at hd
    cases hd

/-- A node whose literal can be decoded has a route exactly if it is a call that registers one. -/
theorem route?_of_decodable (file : String) (h : Decodable node) :
    ∃ found, route? file node = .ok found ∧ ∀ o, found = some o ↔ RouteCall file node o.1 o.2 := by
  by_cases hcall : ∃ method nameStart start raw rest,
      PathCall method nameStart start raw rest node
  · obtain ⟨method, nameStart, start, raw, rest, hcall⟩ := hcall
    obtain ⟨path, hd⟩ := h method nameStart start raw rest hcall
    refine ⟨_, route?_pathCall file hcall hd, fun o => ⟨fun ho => ?_, fun ho => ?_⟩⟩
    · split at ho
      · cases ho
      · rename_i hne
        obtain rfl := Option.some.inj ho
        exact .mk hcall hd hne
    · exact Except.ok.inj ((route?_pathCall file hcall hd).symm.trans ho.route?_eq)
  · have hnone : ∀ method nameStart start raw rest,
        ¬ PathCall method nameStart start raw rest node := by simpa using hcall
    refine ⟨none, route?_no_pathCall file hnone, fun o => ⟨nofun, fun ho => ?_⟩⟩
    have heq := (route?_no_pathCall file hnone).symm.trans ho.route?_eq
    cases heq

end Matching

/-- A route with the place of the method's name and the address of the call. -/
structure Sighting where
  address : List Nat
  nameStart : Nat
  route : RouteFact

/-- The order of the methods' names, and of the nodes where these stand at one place. -/
def Sighting.Before (a b : Sighting) : Prop :=
  a.nameStart < b.nameStart ∨ a.nameStart = b.nameStart ∧ Precedes a.address b.address

instance : Std.Asymm Sighting.Before where
  asymm a b hab hba := by
    obtain hlt | ⟨heq, hab⟩ := hab
    · obtain hgt | ⟨heq, -⟩ := hba <;> omega
    · obtain hgt | ⟨-, hba⟩ := hba
      · omega
      · exact asymm hab hba

/-- Sorting by a key keeps the order of members with one key. -/
theorem pairwise_mergeSort_key {α : Type} {R : α → α → Prop} (key : α → Nat) {l : List α}
    (h : l.Pairwise R) : (l.mergeSort fun a b => key a ≤ key b).Pairwise
      fun a b => key a < key b ∨ key a = key b ∧ R a b := by
  have htrans (a b c : α) (hab : decide (key a ≤ key b) = true)
      (hbc : decide (key b ≤ key c) = true) : decide (key a ≤ key c) = true := by
    simp only [decide_eq_true_eq] at *
    omega
  have htotal (a b : α) : (decide (key a ≤ key b) || decide (key b ≤ key a)) = true := by
    simp only [Bool.or_eq_true, decide_eq_true_eq]
    omega
  -- The first member goes behind all smaller ones and in front of the rest.
  induction l with
  | nil => simp
  | cons a l ih =>
    rw [List.pairwise_cons] at h
    have hsorted := List.pairwise_mergeSort htrans htotal (a :: l)
    obtain ⟨front, back, hnew, hold, hfront⟩ := List.mergeSort_cons htrans htotal a l
    have hperm := List.mergeSort_perm l fun a b => key a ≤ key b
    replace ih := ih h.2
    rw [hold, List.pairwise_append] at ih
    rw [hold] at hperm
    rw [hnew, List.pairwise_append, List.pairwise_cons] at hsorted
    rw [hnew, List.pairwise_append, List.pairwise_cons]
    refine ⟨ih.1, ⟨fun b hb => ?_, ih.2.1⟩, fun b hb c hc => ?_⟩
    · have hle := of_decide_eq_true (hsorted.2.1.1 b hb)
      have hab := h.1 b (hperm.mem_iff.mp (List.mem_append_right front hb))
      obtain hlt | heq := Nat.lt_or_eq_of_le hle
      · exact .inl hlt
      · exact .inr ⟨heq, hab⟩
    · obtain rfl | hc := List.mem_cons.mp hc
      · have hlt := hfront b hb
        simp only [Bool.not_eq_true', decide_eq_false_iff_not, Nat.not_le] at hlt
        exact .inl hlt
      · exact ih.2.2 b hb c hc

section Finding
variable {file : String} {t : Tree}

/-- The route of a node, if it is told. -/
def told? (file : String) (node : Tree) : Option (Nat × RouteFact) :=
  (route? file node).toOption.join

theorem route?_eq_told? {node : Tree} (h : Decodable node) :
    route? file node = .ok (told? file node) := by
  obtain ⟨found, hfound, -⟩ := route?_of_decodable file h
  rw [told?, hfound]
  rfl

theorem told?_eq_some_iff {node : Tree} (h : Decodable node) {o : Nat × RouteFact} :
    told? file node = some o ↔ RouteCall file node o.1 o.2 := by
  obtain ⟨found, hfound, hcall⟩ := route?_of_decodable file h
  rw [← hcall, told?, hfound]
  rfl

/-- The routes of a tree in the order of its nodes. -/
def sightings (file : String) (t : Tree) : List Sighting :=
  t.located.filterMap fun x => (told? file x.2).map fun o => ⟨x.1, o.1, o.2⟩

theorem mem_sightings (h : ∀ p node, t.at? p = some node → Decodable node) {s : Sighting} :
    s ∈ sightings file t ↔
      ∃ node, t.at? s.address = some node ∧ RouteCall file node s.nameStart s.route := by
  rw [sightings, List.mem_filterMap]
  constructor
  · rintro ⟨⟨p, node⟩, hx, hs⟩
    obtain ⟨o, ho, rfl⟩ := Option.map_eq_some_iff.mp hs
    have hnode := Tree.mem_located.mp hx
    exact ⟨node, hnode, (told?_eq_some_iff (h p node hnode)).mp ho⟩
  · rintro ⟨node, hnode, hcall⟩
    have ho := (told?_eq_some_iff (o := (s.nameStart, s.route)) (h _ node hnode)).mpr hcall
    exact ⟨(s.address, node), Tree.mem_located.mpr hnode, by rw [ho]; rfl⟩

theorem pairwise_sightings (file : String) (t : Tree) :
    (sightings file t).Pairwise fun a b => Precedes a.address b.address := by
  rw [sightings, List.pairwise_filterMap]
  refine t.pairwise_located.imp fun hxy a ha b hb => ?_
  obtain ⟨o, -, rfl⟩ := Option.map_eq_some_iff.mp ha
  obtain ⟨o', -, rfl⟩ := Option.map_eq_some_iff.mp hb
  exact hxy

theorem registers_sightings (h : ∀ p node, t.at? p = some node → Decodable node) :
    Registers file t.nodes ((sightings file t).map fun s => (s.nameStart, s.route)) := by
  have htold : ∀ node ∈ t.nodes, route? file node = .ok (told? file node) := by
    intro node hnode
    rw [← Tree.map_snd_located, List.mem_map] at hnode
    obtain ⟨⟨p, node⟩, hx, rfl⟩ := hnode
    exact route?_eq_told? (h p node (Tree.mem_located.mp hx))
  rw [Registers, mapM_eq_ok_map (told? file) htold, map_eq_ok_iff]
  refine ⟨_, rfl, ?_⟩
  rw [← Tree.map_snd_located, sightings, List.map_filterMap, List.filterMap_map,
    List.filterMap_map]
  refine List.filterMap_congr fun x _ => ?_
  rw [Option.map_map]
  exact Option.map_id_apply.symm

/-- The routes of a tree in the order in which they are found. -/
def found (file : String) (t : Tree) : List Sighting :=
  (sightings file t).mergeSort fun a b => a.nameStart ≤ b.nameStart

theorem find_eq_found (h : ∀ p node, t.at? p = some node → Decodable node) :
    find file t = .ok ((found file t).map Sighting.route) := by
  have hsort : ((sightings file t).map fun s => (s.nameStart, s.route)).mergeSort
      (fun a b => a.1 ≤ b.1) = (found file t).map fun s => (s.nameStart, s.route) := by
    rw [found, List.map_mergeSort]
    exact fun _ _ _ _ => rfl
  rw [find_registered (registers_sightings h), hsort, List.map_map]
  rfl

theorem pairwise_found (file : String) (t : Tree) : (found file t).Pairwise Sighting.Before :=
  pairwise_mergeSort_key Sighting.nameStart (pairwise_sightings file t)

theorem nodup_addresses (file : String) (t : Tree) :
    ((found file t).map Sighting.address).Nodup := by
  have hnodup : ((sightings file t).map Sighting.address).Nodup :=
    (List.pairwise_map.mpr (pairwise_sightings file t)).nodup
  exact ((List.mergeSort_perm _ _).map Sighting.address).nodup_iff.mpr hnodup

theorem mem_found (h : ∀ p node, t.at? p = some node → Decodable node) {s : Sighting} :
    s ∈ found file t ↔
      ∃ node, t.at? s.address = some node ∧ RouteCall file node s.nameStart s.route := by
  rw [found, List.mem_mergeSort, mem_sightings h]

end Finding

end RouteCalls

end RouteBook
