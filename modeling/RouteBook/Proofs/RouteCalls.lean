import RouteBook.Proofs.DocComment
import RouteBook.Proofs.Literal
import RouteBook.RouteCalls

/-! When the routes of a tree cannot be told, and what holds of them when they can. -/
namespace RouteBook.RouteCalls
open Literal Outcome
open Source (Tree)

/-- The numbers named by the escapes of the literal that a call's arguments start with. -/
def pathNumbers (args : List Tree) : List Nat :=
  match (args.filter (!·.isComment)).head?.bind literal? with
  | some (_, raw) => escapeNumbers raw.toList
  | none => []

/-- The numbers named by the path that a node registers. -/
def routeNumbers : Tree → List Nat
  | .call _ (.member _ _ name) args =>
    if (Method.ofAnyCase? name).isSome then pathNumbers args else []
  | _ => []

/-- The numbers named by all paths that are registered in a tree, in the order of its nodes. -/
def numbers (t : Tree) : List Nat := t.nodes.flatMap routeNumbers

theorem pathAndHandlers?_error_iff (args : List Tree) (e : EscapeError) :
    (∃ start, pathAndHandlers? args = .error ⟨start, e⟩) ↔ fault? (pathNumbers args) = some e := by
  unfold pathAndHandlers? pathNumbers
  cases args.filter (!·.isComment) with
  | nil => simp [fault?]
  | cons first rest =>
    simp only [List.head?_cons, Option.bind_some]
    cases literal? first with
    | none => simp [fault?]
    | some l =>
      obtain ⟨start, raw⟩ := l
      rw [← decode_error_iff]
      cases hd : decode raw.toList with
      | error e' => simp [hd]
      | ok path => cases path <;> simp [hd]

theorem route?_error_iff (file : String) (t : Tree) (e : EscapeError) :
    (∃ start, route? file t = .error ⟨start, e⟩) ↔ fault? (routeNumbers t) = some e := by
  unfold route? routeNumbers
  split
  · rename_i start object nameStart name args
    obtain hm | ⟨method, hm⟩ := Option.eq_none_or_eq_some (Method.ofAnyCase? name)
    · simp [hm, fault?]
    · simp only [hm, Option.isSome_some, if_true]
      rw [← pathAndHandlers?_error_iff]
      cases pathAndHandlers? args with
      | error b => simp [bind, Except.bind]
      | ok found => cases found <;> simp [bind, Except.bind, pure, Except.pure]
  · simp [fault?]

theorem mapM_route?_error_iff (file : String) (ts : List Tree) (e : EscapeError) :
    (∃ start, ts.mapM (route? file) = .error ⟨start, e⟩) ↔
      fault? (ts.flatMap routeNumbers) = some e := by
  induction ts with
  | nil => simp [fault?, pure, Except.pure]
  | cons t ts ih =>
    rw [List.flatMap_cons, fault?_append]
    cases ht : route? file t with
    | error b =>
      have hb := (route?_error_iff file t b.error).mp ⟨b.start, ht⟩
      rw [hb, mapM_cons_error _ ts ht]
      cases b
      simp
    | ok found =>
      have hn : fault? (routeNumbers t) = none := by
        cases hf : fault? (routeNumbers t) with
        | none => rfl
        | some e' =>
          obtain ⟨start, hs⟩ := (route?_error_iff file t e').mpr hf
          rw [ht] at hs
          cases hs
      rw [hn, mapM_cons_ok _ ts ht, Option.none_or, ← ih]
      simp only [map_eq_error_iff]

/-- The routes cannot be told exactly when a registered path names a number beyond the last code
point, and the first such number decides what is wrong. -/
theorem find_error_iff (file : String) (t : Tree) (e : EscapeError) :
    (∃ start, find file t = .error ⟨start, e⟩) ↔ fault? (numbers t) = some e := by
  rw [numbers, ← mapM_route?_error_iff file]
  exact exists_congr fun start => map_eq_error_iff _ _ _

theorem pathAndHandlers?_path {args : List Tree} {path : String} {handlers : List String}
    (h : pathAndHandlers? args = .ok (some (path, handlers))) : path ≠ "" := by
  unfold pathAndHandlers? at h
  split at h
  · cases h
  · split at h
    · cases h
    · split at h
      · cases h
      · cases h
      · rename_i hne _
        obtain ⟨rfl, -⟩ := Prod.mk.inj (Option.some.inj (Except.ok.inj h))
        simpa using hne

theorem route?_path {file : String} {t : Tree} {n : Nat} {r : RouteFact}
    (h : route? file t = .ok (some (n, r))) : r.path ≠ "" := by
  unfold route? at h
  split at h
  · rename_i args
    split at h
    · cases h
    · cases hp : pathAndHandlers? args with
      | error b => rw [hp] at h; cases h
      | ok found =>
        rw [hp] at h
        cases found with
        | none => cases h
        | some p =>
          obtain ⟨-, rfl⟩ := Prod.mk.inj (Option.some.inj (Except.ok.inj h))
          exact pathAndHandlers?_path hp
  · cases h

theorem find_path {file : String} {t : Tree} {routes : List RouteFact} {r : RouteFact}
    (h : find file t = .ok routes) (hr : r ∈ routes) : r.path ≠ "" := by
  obtain ⟨found, hf, rfl⟩ := (map_eq_ok_iff _ (t.nodes.mapM (route? file)) _).mp h
  obtain ⟨⟨n, _⟩, hp, rfl⟩ := List.mem_map.mp hr
  rw [List.mem_mergeSort, List.mem_filterMap] at hp
  obtain ⟨_, ho, rfl⟩ := hp
  obtain ⟨node, -, hnode⟩ := mem_of_mapM hf ho
  exact route?_path hnode

theorem statusMap_of_docs {t : Tree} {f : DocFact} (h : f ∈ docs t) : StatusMap f.responses := by
  obtain ⟨node, -, hf⟩ := List.mem_filterMap.mp h
  unfold doc? at hf
  split at hf
  · split at hf
    · exact DocComment.statusMap_of_parse? hf
    · cases hf
  · cases hf

/-- The routes that some nodes register, in the order of the nodes. -/
def Registers (file : String) (ts : List Tree) (rs : List (Nat × RouteFact)) : Prop :=
  List.filterMap id <$> ts.mapM (route? file) = .ok rs

section Registers
variable {file : String} {ts us : List Tree} {rs ss : List (Nat × RouteFact)}

theorem registers_one {t : Tree} {r : Nat × RouteFact} (h : route? file t = .ok (some r)) :
    Registers file [t] [r] := by
  rw [Registers, mapM_cons_ok _ [] h]
  rfl

theorem registers_nothing (h : ∀ t ∈ ts, route? file t = .ok none) : Registers file ts [] := by
  rw [Registers, mapM_eq_ok_map (fun _ => none) h, map_eq_ok_iff]
  exact ⟨_, rfl, by simp⟩

theorem Registers.append (ht : Registers file ts rs) (hu : Registers file us ss) :
    Registers file (ts ++ us) (rs ++ ss) := by
  obtain ⟨os, ho, rfl⟩ := (map_eq_ok_iff _ _ _).mp ht
  obtain ⟨qs, hq, rfl⟩ := (map_eq_ok_iff _ _ _).mp hu
  rw [Registers, List.mapM_append, ho, hq, map_eq_ok_iff]
  exact ⟨os ++ qs, rfl, List.filterMap_append⟩

/-- The routes that are found are those that the nodes register, sorted by the methods' names. -/
theorem find_registered {t : Tree} (h : Registers file t.nodes rs) :
    find file t = .ok ((rs.mergeSort fun a b => a.1 ≤ b.1).map Prod.snd) := by
  obtain ⟨os, ho, rfl⟩ := (map_eq_ok_iff _ _ _).mp h
  rw [find, ho]
  rfl

/-- Routes that are registered in the order of their methods' names are found in this order. -/
theorem find_of_registers {t : Tree} (h : Registers file t.nodes rs)
    (hs : rs.Pairwise fun a b => a.1 ≤ b.1) : find file t = .ok (rs.map Prod.snd) := by
  rw [find_registered h, List.mergeSort_of_pairwise (hs.imp fun hab => decide_eq_true hab)]

end Registers

end RouteBook.RouteCalls
