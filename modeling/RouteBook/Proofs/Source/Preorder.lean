import Mathlib.Data.List.Basic
import RouteBook.Source.Tree

/-! The order in which the nodes of a tree are met. A node is told by its address: which child to
take at each step from the root. Main statement: working off a stack meets every node once, in the
order of the addresses, so that each comes before its children. -/
namespace RouteBook.Source.Tree
variable {t c n : Tree} {ts us : List Tree} {p : List Nat} {i : Nat}

theorem size_le_sizeAll (h : c ∈ ts) : c.size ≤ sizeAll ts := by
  induction ts with
  | nil => cases h
  | cons t ts ih =>
    rw [sizeAll]
    obtain rfl | h := List.mem_cons.mp h
    · exact Nat.le_add_right _ _
    · exact Nat.le_trans (ih h) (Nat.le_add_left _ _)

/-- Induction over a tree: a node from its children. -/
theorem induct {P : Tree → Prop} (h : ∀ t, (∀ c ∈ t.children, P c) → P t) (t : Tree) : P t := by
  induction hn : t.size using Nat.strongRecOn generalizing t with
  | ind n ih =>
    refine h t fun c hc => ih c.size ?_ c rfl
    have hle := size_le_sizeAll hc
    have hsize := size_eq t
    omega

theorem walk_append (ts us : List Tree) : walk (ts ++ us) = walk ts ++ walk us := by
  fun_induction walk ts with
  | case1 => rfl
  | case2 t stack ih =>
    rw [List.cons_append, walk, ← List.append_assoc, ih, List.cons_append]

theorem walk_eq_flatMap (ts : List Tree) : walk ts = ts.flatMap nodes := by
  induction ts with
  | nil => rw [walk, List.flatMap_nil]
  | cons t ts ih => rw [← List.singleton_append, walk_append, ih, ← nodes, List.flatMap_append,
      List.flatMap_singleton]

/-- A node comes before its children, and these come one after the other. -/
theorem nodes_eq (t : Tree) : t.nodes = t :: t.children.flatMap nodes := by
  rw [nodes, walk, List.append_nil, walk_eq_flatMap]

theorem nodes_leaf (h : t.children = []) : t.nodes = [t] := by
  rw [nodes_eq, h, List.flatMap_nil]

theorem flatMap_leaves (h : ∀ t ∈ ts, t.children = []) : ts.flatMap nodes = ts := by
  rw [List.flatMap_congr fun t ht => nodes_leaf (h t ht), List.flatMap_singleton']

/-- The node at an address. -/
def at? (t : Tree) : List Nat → Option Tree
  | [] => some t
  | i :: p => t.children[i]?.bind (·.at? p)

theorem at?_append (t : Tree) (p q : List Nat) : t.at? (p ++ q) = (t.at? p).bind (·.at? q) := by
  induction p generalizing t with
  | nil => rfl
  | cons i p ih =>
    rw [List.cons_append, at?, at?, Option.bind_assoc]
    exact Option.bind_congr fun c _ => ih c

def enter (i : Nat) (x : List Nat × Tree) : List Nat × Tree := (i :: x.1, x.2)

mutual
/-- The nodes of a tree with their addresses, each before its children. -/
def located : Tree → List (List Nat × Tree)
  | call start callee args =>
    ([], call start callee args) :: (callee.located.map (enter 0) ++ locatedFrom 1 args)
  | member object nameStart name =>
    ([], member object nameStart name) :: object.located.map (enter 0)
  | template start raw substitutions =>
    ([], template start raw substitutions) :: locatedFrom 0 substitutions
  | group parts => ([], group parts) :: locatedFrom 0 parts
  | t => [([], t)]
def locatedFrom (i : Nat) : List Tree → List (List Nat × Tree)
  | [] => []
  | t :: ts => t.located.map (enter i) ++ locatedFrom (i + 1) ts
end

theorem located_eq (t : Tree) : t.located = ([], t) :: locatedFrom 0 t.children := by
  cases t <;> simp [located, children, locatedFrom]

theorem map_snd_locatedFrom (i : Nat) (ts : List Tree) :
    (locatedFrom i ts).map Prod.snd = ts.flatMap fun c => c.located.map Prod.snd := by
  induction ts generalizing i with
  | nil => rfl
  | cons t ts ih =>
    rw [locatedFrom, List.map_append, List.map_map, ih, List.flatMap_cons]
    rfl

theorem map_snd_located (t : Tree) : t.located.map Prod.snd = t.nodes := by
  induction t using induct with
  | h t ih => rw [located_eq, List.map_cons, map_snd_locatedFrom, nodes_eq, List.flatMap_congr ih]

theorem mem_locatedFrom {x : List Nat × Tree} : x ∈ locatedFrom i ts ↔
    ∃ j c y, ts[j]? = some c ∧ y ∈ c.located ∧ x = enter (i + j) y := by
  induction ts generalizing i with
  | nil => simp [locatedFrom]
  | cons t ts ih =>
    rw [locatedFrom, List.mem_append, ih, List.mem_map]
    constructor
    · rintro (⟨y, hy, rfl⟩ | ⟨j, c, y, hc, hy, rfl⟩)
      · exact ⟨0, t, y, rfl, hy, rfl⟩
      · exact ⟨j + 1, c, y, hc, hy, by rw [Nat.add_right_comm, Nat.add_assoc]⟩
    · rintro ⟨j, c, y, hc, hy, rfl⟩
      cases j with
      | zero =>
        obtain rfl : t = c := Option.some.inj hc
        exact .inl ⟨y, hy, rfl⟩
      | succ j => exact .inr ⟨j, c, y, hc, hy, by rw [Nat.add_right_comm, Nat.add_assoc]⟩

theorem mem_located : (p, n) ∈ t.located ↔ t.at? p = some n := by
  induction t using induct generalizing p with
  | h t ih =>
    rw [located_eq, List.mem_cons]
    cases p with
    | nil =>
      have hno : ([], n) ∉ locatedFrom 0 t.children := by
        rw [mem_locatedFrom]
        rintro ⟨j, c, y, -, -, h⟩
        cases h
      simp [hno, at?, eq_comm]
    | cons i p =>
      rw [mem_locatedFrom, at?, Option.bind_eq_some_iff]
      constructor
      · rintro (h | ⟨j, c, y, hc, hy, h⟩)
        · cases h
        · obtain ⟨hp, rfl⟩ := Prod.mk.inj h
          obtain ⟨rfl, rfl⟩ := List.cons.inj hp
          rw [Nat.zero_add]
          exact ⟨c, hc, (ih c (List.mem_of_getElem? hc)).mp hy⟩
      · rintro ⟨c, hc, hat⟩
        have hmem := (ih c (List.mem_of_getElem? hc)).mpr hat
        exact .inr ⟨i, c, (p, n), hc, hmem, by rw [Nat.zero_add]; rfl⟩

/-- The order of addresses: a node before what is in it, and this before what comes after. -/
abbrev Precedes (p q : List Nat) : Prop := List.Lex (· < ·) p q

theorem pairwise_locatedFrom
    (h : ∀ c ∈ ts, c.located.Pairwise fun x y => Precedes x.1 y.1) (i : Nat) :
    (locatedFrom i ts).Pairwise fun x y => Precedes x.1 y.1 := by
  induction ts generalizing i with
  | nil => exact .nil
  | cons c ts ih =>
    rw [List.forall_mem_cons] at h
    rw [locatedFrom, List.pairwise_append, List.pairwise_map]
    refine ⟨h.1.imp fun hxy => .cons hxy, ih h.2 (i + 1), ?_⟩
    intro x hx y hy
    obtain ⟨x, -, rfl⟩ := List.mem_map.mp hx
    obtain ⟨j, d, y, -, -, rfl⟩ := mem_locatedFrom.mp hy
    exact .rel (by omega)

theorem pairwise_located (t : Tree) : t.located.Pairwise fun x y => Precedes x.1 y.1 := by
  induction t using induct with
  | h t ih =>
    rw [located_eq, List.pairwise_cons]
    refine ⟨fun y hy => ?_, pairwise_locatedFrom ih 0⟩
    obtain ⟨j, d, y, -, -, rfl⟩ := mem_locatedFrom.mp hy
    exact .nil

end RouteBook.Source.Tree
