import Mathlib.Data.List.Lex
import RouteBook.Proofs.RouteText

/-! Routes that are registered in one chain of calls. The last call of a chain is its root, so the
calls are met from the end. Main statement: which routes are found in a tree and in which order,
and that those of a chain come in the order in which they are written. -/
namespace RouteBook

namespace RouteCalls
open Outcome
open Source (Tree Link chain)
open Source.Tree (Precedes)

/-- A link registers a route, whatever it is called on. -/
def Registering (file : String) (start : Nat) (l : Link) (r : RouteFact) : Prop :=
  ∀ object, RouteCall file (l.call start object) l.nameStart r

variable {file : String} {t object : Tree} {p : List Nat} {start : Nat} {links : List Link}
  {routes : List RouteFact} {os : List (Nat × RouteFact)}

theorem position_of_registering (hr : List.Forall₂ (Registering file start) links routes) :
    ∀ r ∈ routes, r.position = start := by
  induction hr with
  | nil => simp
  | cons hl _ ih =>
    refine List.forall_mem_cons.mpr ⟨?_, ih⟩
    obtain ⟨hcall, -, -⟩ := hl .leaf
    cases hcall
    rfl

section Addresses

/-- From the root of a chain to the object below some of its links. -/
def below (n : Nat) : List Nat := List.replicate (2 * n) 0

theorem at?_chain (start : Nat) (object : Tree) (links : List Link) :
    (chain start object links).at? (below links.length) = some object := by
  induction links generalizing object with
  | nil => rfl
  | cons l links ih =>
    have hsplit : below (l :: links).length = below links.length ++ [0, 0] := by
      simp [below, Nat.mul_add, List.replicate_succ']
    rw [hsplit, Tree.at?_append, chain, List.foldl_cons, ← chain, ih]
    rfl

theorem precedes_below (p : List Nat) {i j : Nat} (h : i < j) :
    Precedes (p ++ below i) (p ++ below j) := by
  have hsplit : below j = below i ++ 0 :: List.replicate (2 * (j - i) - 1) 0 := by
    rw [below, below, ← List.replicate_succ, List.replicate_append_replicate]
    congr 1
    omega
  have hless : Precedes (p ++ below i ++ [])
      (p ++ below i ++ 0 :: List.replicate (2 * (j - i) - 1) 0) :=
    List.Lex.append_left (· < ·) .nil (p ++ below i)
  rwa [List.append_nil, List.append_assoc, ← hsplit] at hless

theorem exists_sightings (hat : t.at? p = some (chain start object links))
    (hr : List.Forall₂ (Registering file start) links routes) :
    ∃ cs : List Sighting, cs.map Sighting.route = routes ∧
      cs.map Sighting.nameStart = links.map Link.nameStart ∧
      (∀ c ∈ cs, ∃ node, t.at? c.address = some node ∧ RouteCall file node c.nameStart c.route) ∧
      (cs.map Sighting.address).reverse = (List.range links.length).map (p ++ below ·) := by
  -- The first link is the deepest call, so its address is the longest.
  induction hr generalizing object with
  | nil => exact ⟨[], rfl, rfl, by simp, rfl⟩
  | @cons l r links routes hl _ ih =>
    obtain ⟨cs, hroutes, hnames, hcalls, haddresses⟩ := ih hat
    have hnode : t.at? (p ++ below links.length) = some (l.call start object) := by
      rw [Tree.at?_append, hat]
      exact at?_chain start (l.call start object) links
    refine ⟨⟨p ++ below links.length, l.nameStart, r⟩ :: cs, by rw [List.map_cons, hroutes],
      by rw [List.map_cons, hnames, List.map_cons], ?_, ?_⟩
    · exact List.forall_mem_cons.mpr ⟨⟨_, hnode, hl object⟩, hcalls⟩
    · rw [List.map_cons, List.reverse_cons, haddresses, List.length_cons, List.range_succ,
        List.map_append]
      rfl

/-- A chain is met from its end, but its routes are found in the order in which it is written. -/
theorem chain_found (hd : ∀ p node, t.at? p = some node → Decodable node)
    (hat : t.at? p = some (chain start object links))
    (hn : links.Pairwise fun l k => l.nameStart < k.nameStart)
    (hr : List.Forall₂ (Registering file start) links routes) :
    ∃ cs : List Sighting, cs.Sublist (found file t) ∧ cs.map Sighting.route = routes ∧
      cs.Pairwise fun a b => Precedes b.address a.address := by
  obtain ⟨cs, hroutes, hnames, hcalls, haddresses⟩ := exists_sightings hat hr
  have hbefore : cs.Pairwise Sighting.Before := by
    have hlt : (cs.map Sighting.nameStart).Pairwise (· < ·) := by
      rw [hnames, List.pairwise_map]
      exact hn
    exact (List.pairwise_map.mp hlt).imp fun h => .inl h
  have hreverse : (cs.map Sighting.address).reverse.Pairwise Precedes := by
    rw [haddresses, List.pairwise_map]
    exact List.pairwise_lt_range.imp fun h => precedes_below p h
  have hsubset : cs ⊆ found file t := fun c hc => (mem_found hd).mpr (hcalls c hc)
  refine ⟨cs, ?_, hroutes, ?_⟩
  · exact List.sublist_of_subperm_of_pairwise (List.subperm_of_subset hbefore.nodup hsubset)
      hbefore (pairwise_found file t)
  · rwa [List.pairwise_reverse, List.pairwise_map] at hreverse

end Addresses

section Alone

theorem registers_call {l : Link} {r : RouteFact} (hl : Registering file start l r)
    (hargs : Registers file (l.args.flatMap Tree.nodes) [])
    (ho : Registers file object.nodes os) :
    Registers file (l.call start object).nodes ((l.nameStart, r) :: os) := by
  have hnodes : (l.call start object).nodes = [l.call start object] ++
      ([.member object l.nameStart l.name] ++ (object.nodes ++ l.args.flatMap Tree.nodes)) := by
    rw [Tree.nodes_eq, Link.call, Tree.children, List.flatMap_cons, Tree.nodes_eq (.member _ _ _),
      Tree.children, List.flatMap_singleton]
    simp
  have hcall := registers_one (hl object).route?_eq
  have hmember : Registers file [.member object l.nameStart l.name] [] :=
    registers_nothing fun t ht => by rw [List.mem_singleton.mp ht]; rfl
  have hall := hcall.append (hmember.append (ho.append hargs))
  rwa [← hnodes, List.nil_append, List.append_nil] at hall

theorem registers_chain (hr : List.Forall₂ (Registering file start) links routes)
    (hargs : ∀ l ∈ links, Registers file (l.args.flatMap Tree.nodes) [])
    (ho : Registers file object.nodes os) :
    Registers file (chain start object links).nodes
      (((links.map Link.nameStart).zip routes).reverse ++ os) := by
  -- With its first call as the object, a chain is the chain of the other links.
  induction hr generalizing object os with
  | nil => exact ho
  | @cons l r links routes hl _ ih =>
    rw [List.forall_mem_cons] at hargs
    have hchain := ih hargs.2 (registers_call hl hargs.1 ho)
    rwa [List.map_cons, List.zip_cons_cons, List.reverse_cons, List.append_assoc]

theorem mergeSort_reverse (h : os.Pairwise fun a b => a.1 < b.1) :
    (os.reverse.mergeSort fun a b => a.1 ≤ b.1) = os := by
  have hback : os.reverse.Pairwise fun a b => b.1 < a.1 := List.pairwise_reverse.mpr h
  have hsorted : (os.reverse.mergeSort fun a b => a.1 ≤ b.1).Pairwise fun a b => a.1 < b.1 :=
    (pairwise_mergeSort_key Prod.fst hback).imp fun hab => by omega
  exact List.Perm.eq_of_pairwise (fun a b _ _ hab hba => absurd hba (Nat.lt_asymm hab)) hsorted h
    ((List.mergeSort_perm _ _).trans (List.reverse_perm os))

theorem find_chain (hr : List.Forall₂ (Registering file start) links routes)
    (hargs : ∀ l ∈ links, Registers file (l.args.flatMap Tree.nodes) [])
    (ho : Registers file object.nodes [])
    (hn : links.Pairwise fun l k => l.nameStart < k.nameStart) :
    find file (.group [chain start object links]) = .ok routes := by
  have hlength : (links.map Link.nameStart).length = routes.length := by
    rw [List.length_map, hr.length_eq]
  have hordered : ((links.map Link.nameStart).zip routes).Pairwise fun a b => a.1 < b.1 := by
    rw [← List.pairwise_map (f := Prod.fst), List.map_fst_zip hlength.le, List.pairwise_map]
    exact hn
  have hroot : Registers file [.group [chain start object links]] [] :=
    registers_nothing fun t ht => by rw [List.mem_singleton.mp ht]; rfl
  have hnodes : (Tree.group [chain start object links]).nodes =
      [.group [chain start object links]] ++ (chain start object links).nodes := by
    rw [Tree.nodes_eq, Tree.children, List.flatMap_singleton]
    rfl
  have hall := hroot.append (registers_chain hr hargs ho)
  rw [← hnodes, List.append_nil, List.nil_append] at hall
  rw [find_registered hall, mergeSort_reverse hordered, List.map_snd_zip hlength.ge]

end Alone

end RouteCalls

namespace RouteText
open Source
open RouteCalls (Registering Registers)

/-- A route that is registered on what stands before it. -/
structure Step where
  method : Method
  verb : List Char
  path : List Letter
  handlers : List Name
  verb_spelled : method.IsSpelled verb
  path_ne : path ≠ []

namespace Step

def text (i : Step) : List Char :=
  '.' :: i.verb ++ ("('".toList ++ (i.path.flatMap Letter.text ++ ("'".toList ++
    (i.handlers.flatMap (fun h => ", ".toList ++ h.text) ++ ")".toList))))

def route (file : String) (start : Nat) (i : Step) : RouteFact where
  method := i.method
  path := String.ofList (i.path.map Letter.char)
  handlers := i.handlers.map fun h => String.ofList h.text
  position := start
  file := file

def call (i : Step) : MemberCall :=
  ⟨i.verb, .literal (i.path.flatMap Letter.text), i.handlers.map fun h => .name h.text⟩

theorem text_call (i : Step) : i.call.text = i.text := by
  simp [call, MemberCall.text, text, moreArguments, List.flatMap_map, Argument.text, quoted]

theorem valid_call (i : Step) (hz : '\x00' ∉ i.text) : i.call.Valid := by
  have hpath : '\x00' ∉ i.path.flatMap Letter.text := by
    intro h
    apply hz
    simp [text, h]
  refine ⟨Method.isName_of_isSpelled i.verb_spelled, closes_letters hpath, fun x hx => ?_⟩
  obtain ⟨h, -, rfl⟩ := List.mem_map.mp hx
  exact h.plain

theorem args_link (i : Step) (pos : Nat) : ∃ start, (i.call.link pos).args =
    .string start (String.ofList (i.path.flatMap Letter.text)) ::
      i.handlers.map fun h => .identifier (String.ofList h.text) :=
  ⟨_, congrArg _ (argumentTrees_names _ i.handlers)⟩

theorem registering_link (file : String) (start pos : Nat) (i : Step) :
    Registering file start (i.call.link pos) (i.route file start) := by
  intro object
  obtain ⟨place, hargs⟩ := i.args_link pos
  rw [Link.call, hargs]
  exact routeCall_letters file i.verb_spelled i.path_ne i.handlers object start _ place

theorem registers_args (file : String) (pos : Nat) (i : Step) :
    Registers file ((i.call.link pos).args.flatMap Tree.nodes) [] := by
  obtain ⟨place, hargs⟩ := i.args_link pos
  have hleaf : ∀ a ∈ (i.call.link pos).args, a.children = [] := by
    rw [hargs, List.forall_mem_cons, List.forall_mem_map]
    exact ⟨rfl, fun _ _ => rfl⟩
  rw [Tree.flatMap_leaves hleaf, hargs]
  apply RouteCalls.registers_nothing
  rw [List.forall_mem_cons, List.forall_mem_map]
  exact ⟨rfl, fun _ _ => rfl⟩

end Step

def chainedText (blank : List Char) (object : Name) (steps : List Step) : List Char :=
  blank ++ (object.text ++ (steps.flatMap Step.text ++ [';']))

theorem forall₂_links (file : String) (start pos : Nat) (steps : List Step) :
    List.Forall₂ (Registering file start) (links pos (steps.map Step.call))
      (steps.map (Step.route file start)) := by
  induction steps generalizing pos with
  | nil => exact .nil
  | cons i steps ih => exact .cons (i.registering_link file start pos) (ih _)

theorem parse_chained {blank : List Char} (hg : Gap blank) (object : Name) (steps : List Step)
    (hz : '\x00' ∉ chainedText blank object steps) (file : String) :
    Extraction.parse (Text.encode (chainedText blank object steps)) file =
      .ok (.group [chain (Text.width blank) (.identifier (String.ofList object.text))
        (links (Text.width blank + Text.width object.text) (steps.map Step.call))]) := by
  have htext : chainText (steps.map Step.call) = steps.flatMap Step.text := by
    simp only [chainText, List.flatMap_map, Step.text_call]
  have hvalid : ∀ m ∈ steps.map Step.call, m.Valid := by
    intro m hm
    obtain ⟨i, hi, rfl⟩ := List.mem_map.mp hm
    refine i.valid_call fun h => hz ?_
    have hin : '\x00' ∈ steps.flatMap Step.text := List.mem_flatMap.mpr ⟨i, hi, h⟩
    simp [chainedText, hin]
  rw [Extraction.parse, chainedText, ← htext, parse?_chain hg object.plain hvalid]

theorem find_chained (file : String) (start pos : Nat) (object : Name) (steps : List Step) :
    RouteCalls.find file (.group [chain start (.identifier (String.ofList object.text))
      (links pos (steps.map Step.call))]) = .ok (steps.map (Step.route file start)) := by
  refine RouteCalls.find_chain (forall₂_links file start pos steps) (fun l hl => ?_) ?_
    (pairwise_links pos _)
  · obtain ⟨m, hm, place, -, rfl⟩ := exists_of_mem_links hl
    obtain ⟨i, -, rfl⟩ := List.mem_map.mp hm
    exact i.registers_args file place
  · rw [Tree.nodes_leaf rfl]
    exact RouteCalls.registers_nothing fun t ht => by rw [List.mem_singleton.mp ht]; rfl

end RouteText

open Source (Tree Link chain Gap)
open Source.Tree (Precedes)
open RouteCalls (Sighting Decodable RouteCall Registering find)
open RouteText (Step Name chainedText)

/-- Each node of a tree is met once, before its children. If every path can be decoded, one route is
found for each call that registers one, anywhere in the tree. The routes are in the order of the
methods' names, and where names stand at one place in the order of the nodes. So the routes of a
chain are found as they are written, all at the start of the chain, although its calls are met from
the end. -/
theorem routes_follow_their_names (file : String) (t : Tree) :
    (t.nodes = t :: t.children.flatMap Tree.nodes ∧
      ∃ visits : List (List Nat × Tree), visits.map Prod.snd = t.nodes ∧
        visits.Pairwise (fun x y => Precedes x.1 y.1) ∧
        ∀ p node, (p, node) ∈ visits ↔ t.at? p = some node) ∧
    ((∀ p node, t.at? p = some node → Decodable node) →
      ∃ found : List Sighting, find file t = .ok (found.map Sighting.route) ∧
        found.Pairwise Sighting.Before ∧ (found.map Sighting.address).Nodup ∧
        (∀ s, s ∈ found ↔
          ∃ node, t.at? s.address = some node ∧ RouteCall file node s.nameStart s.route) ∧
        ∀ p start object links routes, t.at? p = some (chain start object links) →
          links.Pairwise (fun l k => l.nameStart < k.nameStart) →
          List.Forall₂ (Registering file start) links routes →
          (∀ r ∈ routes, r.position = start) ∧
          ∃ cs : List Sighting, cs.Sublist found ∧ cs.map Sighting.route = routes ∧
            cs.Pairwise fun a b => Precedes b.address a.address) ∧
    ∀ (blank : List Char) (object : Name) (steps : List Step), Gap blank →
      '\x00' ∉ chainedText blank object steps →
      ∃ links : List Link,
        Extraction.parse (Text.encode (chainedText blank object steps)) file =
          .ok (.group [chain (Text.width blank) (.identifier (String.ofList object.text)) links]) ∧
        links.Pairwise (fun l k => l.nameStart < k.nameStart) ∧
        List.Forall₂ (Registering file (Text.width blank)) links
          (steps.map (Step.route file (Text.width blank))) ∧
        find file
          (.group [chain (Text.width blank) (.identifier (String.ofList object.text)) links]) =
          .ok (steps.map (Step.route file (Text.width blank))) := by
  refine ⟨⟨t.nodes_eq, t.located, t.map_snd_located, t.pairwise_located,
    fun p node => Tree.mem_located⟩, fun hd => ?_, fun blank object steps hg hz => ?_⟩
  · refine ⟨RouteCalls.found file t, RouteCalls.find_eq_found hd, RouteCalls.pairwise_found file t,
      RouteCalls.nodup_addresses file t, fun s => RouteCalls.mem_found hd, ?_⟩
    intro p start object links routes hat hn hr
    exact ⟨RouteCalls.position_of_registering hr, RouteCalls.chain_found hd hat hn hr⟩
  · exact ⟨_, RouteText.parse_chained hg object steps hz file, Source.pairwise_links _ _,
      RouteText.forall₂_links file _ _ steps, RouteText.find_chained file _ _ object steps⟩

/-- Two calls in a chain; the first has a comment before its path and a handler that registers a
route as well. -/
def nestedLinks : List Link :=
  [⟨4, "get", [.comment 14 "/* */", .string 15 "/a", .identifier "h",
    .group [.call 30 (.member (.identifier "r") 32 "post") [.template 37 "/b" []]]]⟩,
   ⟨50, "PUT", [.string 54 "/c"]⟩]

def nested : Tree := .group [chain 0 (.identifier "app") nestedLinks]

/-- The routes of `nestedLinks`. -/
def nestedRoutes : List RouteFact :=
  [{ method := .get, path := "/a", handlers := ["h"], position := 0, file := "a.js" },
   { method := .put, path := "/c", position := 0, file := "a.js" }]

theorem decodable_nested : ∀ p node, nested.at? p = some node → Decodable node := by
  have hall : ∀ x ∈ nested.located, Literal.fault? (RouteCalls.routeNumbers x.2) = none :=
    List.all_iff_forall_prop.mp (by decide +kernel)
  exact fun p node hat => RouteCalls.decodable_of_fault? (hall _ (Tree.mem_located.mpr hat))

theorem registering_nested : List.Forall₂ (Registering "a.js" 0) nestedLinks nestedRoutes := by
  refine .cons (fun o => ?_) (.cons (fun o => ?_) .nil)
  · have hnote : ∀ n ∈ [Tree.comment 14 "/* */"], n.isComment = true := by simp [Tree.isComment]
    have hdecode : Literal.decode "/a".toList = .ok ['/', 'a'] := by decide +kernel
    exact .mk (.mk o "get" _ (by decide +kernel) (.mk _ _ hnote (.string 15 "/a"))) hdecode
      (by decide)
  · have hdecode : Literal.decode "/c".toList = .ok ['/', 'c'] := by decide +kernel
    exact .mk (.mk o "PUT" _ (by decide +kernel) (.mk [] _ (by simp) (.string 54 "/c"))) hdecode
      (by decide)

/-- The route `/b` of the handler in `nested`. -/
def innerRoute : RouteFact := { method := .post, path := "/b", position := 30, file := "a.js" }

theorem routeCall_inner : RouteCall "a.js"
    (.call 30 (.member (.identifier "r") 32 "post") [.template 37 "/b" []]) 32 innerRoute := by
  have hdecode : Literal.decode "/b".toList = .ok ['/', 'b'] := by decide +kernel
  exact .mk (.mk (.identifier "r") "post" _ (by decide +kernel)
    (.mk [] _ (by simp) (.template 37 "/b"))) hdecode (by decide)

/-- The chain `.Get(':i', h).put('x')`. -/
def shortSteps : List Step :=
  [⟨.get, "Get".toList,
    [RouteText.plainLetter ':' (by decide), RouteText.plainLetter 'i' (by decide)],
    [RouteText.plainName "h" (by decide)], by decide, by decide⟩,
   ⟨.put, "put".toList, [RouteText.plainLetter 'x' (by decide)], [], by decide, by decide⟩]

/-- A route in a handler stands between those of the chain that the handler is in. -/
theorem routes_follow_their_names_nested :
    ((∀ p node, nested.at? p = some node → Decodable node) ∧
      nested.at? [0] = some (chain 0 (.identifier "app") nestedLinks) ∧
      nestedLinks.Pairwise (fun l k => l.nameStart < k.nameStart) ∧
      List.Forall₂ (Registering "a.js" 0) nestedLinks nestedRoutes ∧
      ∃ found : List Sighting, find "a.js" nested = .ok (found.map Sighting.route) ∧
        found.Pairwise Sighting.Before ∧ ⟨[0, 0, 0, 4, 0], 32, innerRoute⟩ ∈ found ∧
        ∃ cs : List Sighting, cs.Sublist found ∧ cs.map Sighting.route = nestedRoutes ∧
          cs.Pairwise fun a b => Precedes b.address a.address) ∧
    Gap ['\n'] ∧
    '\x00' ∉ chainedText ['\n'] (RouteText.plainName "app" (by decide)) shortSteps ∧
    ∃ t, Extraction.parse (Text.encode "\napp.Get(':i', h).put('x');".toList) "a.js" = .ok t ∧
      find "a.js" t =
        .ok [{ method := .get, path := ":i", handlers := ["h"], position := 1, file := "a.js" },
          { method := .put, path := "x", position := 1, file := "a.js" }] := by
  have hn : nestedLinks.Pairwise fun l k => l.nameStart < k.nameStart := by decide
  have hz : '\x00' ∉ chainedText ['\n'] (RouteText.plainName "app" (by decide)) shortSteps := by
    decide
  have hg : Gap ['\n'] := Source.gap_cons rfl
  obtain ⟨-, hfound, htext⟩ := routes_follow_their_names "a.js" nested
  obtain ⟨found, hfind, hbefore, -, hmem, hchain⟩ := hfound decodable_nested
  have hinner : ⟨[0, 0, 0, 4, 0], 32, innerRoute⟩ ∈ found := (hmem _).mpr ⟨_, rfl, routeCall_inner⟩
  obtain ⟨links, hparse, -, -, hroutes⟩ := htext ['\n'] _ shortSteps hg hz
  exact ⟨⟨decodable_nested, rfl, hn, registering_nested, found, hfind, hbefore, hinner,
    (hchain [0] 0 _ _ _ rfl hn registering_nested).2⟩, hg, hz, _, hparse, hroutes⟩

end RouteBook
