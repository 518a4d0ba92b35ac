import Mathlib.Order.Nat
import RouteBook.Yaml.Graph

/-! The values that the numbers of a graph show, where each part comes after its collection. A node
without references is laid out in this way, so that its number shows the value that the node
denotes. -/
namespace RouteBook.Yaml

def Content.node (t : Tag) : Content → Node
  | text s => .scalar t s
  | halves codes => .halves t codes

mutual
/-- The value of a node that has neither references nor merge keys. -/
inductive Denotes : Node → Value → Prop
  | scalar {t : Tag} {c : Content} {v : Value} (h : c.value t = .ok v) : Denotes (c.node t) v
  | list {items : List Node} {vs : List Value} (h : DenotesAll items vs) :
      Denotes (.sequence .seq items) (.list vs)
  | map {entries : List (Node × Node)} {fields : List (Value × Value)}
      (h : DenotesEntries entries fields) :
      Denotes (.mapping .map entries) (.map (Pairs.ofList fields))
inductive DenotesAll : List Node → List Value → Prop
  | nil : DenotesAll [] []
  | cons {n : Node} {v : Value} {items : List Node} {vs : List Value} (hn : Denotes n v)
      (h : DenotesAll items vs) : DenotesAll (n :: items) (v :: vs)
inductive DenotesEntries : List (Node × Node) → List (Value × Value) → Prop
  | nil : DenotesEntries [] []
  | cons {t : Tag} {c : Content} {n : Node} {key v : Value} {entries : List (Node × Node)}
      {fields : List (Value × Value)} (hk : c.value t = .ok key) (hn : Denotes n v)
      (h : DenotesEntries entries fields) :
      DenotesEntries ((c.node t, n) :: entries) ((key, v) :: fields)
end

namespace Graph
variable {g g' g₁ g₂ g₃ : Graph} {s : Shape} {n m : Nat} {v : Value}

@[simp] theorem size_push (g : Graph) (s : Shape) :
    (g.push s).shapes.size = g.shapes.size + 1 := by
  simp [push]

@[simp] theorem size_set (g : Graph) (n : Nat) (s : Shape) :
    (g.set n s).shapes.size = g.shapes.size := by
  simp [set]

theorem shape_push (h : n < g.shapes.size) (s : Shape) : (g.push s).shape n = g.shape n := by
  simp [shape, push, Array.getElem?_push, h, Nat.ne_of_lt h]

theorem shape_push_size (g : Graph) (s : Shape) : (g.push s).shape g.shapes.size = s := by
  simp [shape, push]

theorem shape_set (h : n < g.shapes.size) (s : Shape) : (g.set n s).shape n = s := by
  simp [shape, set, h]

theorem shape_set_of_ne (h : n ≠ m) (s : Shape) : (g.set n s).shape m = g.shape m := by
  simp [shape, set, h]

theorem shape_of_size_le (h : g.shapes.size ≤ n) : g.shape n = .mapping .foreign [] := by
  rw [shape, Array.getD_eq_getD_getElem?, Array.getElem?_eq_none h, Option.getD_none]

theorem lt_size_of_shape (h : g.shape n ≠ .mapping .foreign []) : n < g.shapes.size :=
  Nat.lt_of_not_le fun hle => h (shape_of_size_le hle)

def ShowsScalar (g : Graph) (n : Nat) (v : Value) : Prop :=
  ∃ t c, g.shape n = .scalar t c ∧ c.value t = .ok v

mutual
inductive Shows (g : Graph) : Nat → Value → Prop
  | scalar {n : Nat} {v : Value} (h : g.ShowsScalar n v) : Shows g n v
  | list {n : Nat} {ids : List Nat} {vs : List Value} (hs : g.shape n = .sequence .seq ids)
      (h : ShowsAll g n ids vs) : Shows g n (.list vs)
  | map {n : Nat} {ids : List (Nat × Nat)} {fields : List (Value × Value)}
      (hs : g.shape n = .mapping .map ids) (h : ShowsEntries g n ids fields) :
      Shows g n (.map (Pairs.ofList fields))
inductive ShowsAll (g : Graph) : Nat → List Nat → List Value → Prop
  | nil {n : Nat} : ShowsAll g n [] []
  | cons {n i : Nat} {v : Value} {ids : List Nat} {vs : List Value} (hlt : n < i)
      (hi : Shows g i v) (h : ShowsAll g n ids vs) : ShowsAll g n (i :: ids) (v :: vs)
inductive ShowsEntries (g : Graph) : Nat → List (Nat × Nat) → List (Value × Value) → Prop
  | nil {n : Nat} : ShowsEntries g n [] []
  | cons {n k i : Nat} {key v : Value} {ids : List (Nat × Nat)} {fields : List (Value × Value)}
      (hk : n < k) (hkey : g.ShowsScalar k key) (hlt : n < i) (hi : Shows g i v)
      (h : ShowsEntries g n ids fields) :
      ShowsEntries g n ((k, i) :: ids) ((key, v) :: fields)
end

theorem ShowsScalar.lt_size (h : g.ShowsScalar n v) : n < g.shapes.size := by
  obtain ⟨t, c, hs, -⟩ := h
  exact lt_size_of_shape (by simp [hs])

theorem Shows.lt_size (h : g.Shows n v) : n < g.shapes.size := by
  cases h with
  | scalar h => exact h.lt_size
  | list hs => exact lt_size_of_shape (by simp [hs])
  | map hs => exact lt_size_of_shape (by simp [hs])

def SameFrom (n : Nat) (g g' : Graph) : Prop :=
  ∀ m, n ≤ m → m < g.shapes.size → g'.shape m = g.shape m

theorem SameFrom.mono (h : SameFrom n g g') (hle : n ≤ m) : SameFrom m g g' :=
  fun k hk => h k (hle.trans hk)

theorem ShowsScalar.transfer (h : g.ShowsScalar n v) (hg : SameFrom n g g') :
    g'.ShowsScalar n v := by
  have hlt := h.lt_size
  obtain ⟨t, c, hs, hv⟩ := h
  exact ⟨t, c, (hg n le_rfl hlt).trans hs, hv⟩

mutual

/-- What a number shows depends only on the shapes from it on. -/
theorem Shows.transfer : ∀ {n : Nat} {v : Value}, g.Shows n v → SameFrom n g g' → g'.Shows n v
  | _, _, .scalar h, hg => .scalar (h.transfer hg)
  | n, _, .list hs h, hg =>
    .list ((hg n le_rfl (lt_size_of_shape (by simp [hs]))).trans hs)
      (h.transfer (hg.mono n.le_succ))
  | n, _, .map hs h, hg =>
    .map ((hg n le_rfl (lt_size_of_shape (by simp [hs]))).trans hs)
      (h.transfer (hg.mono n.le_succ))

theorem ShowsAll.transfer : ∀ {n : Nat} {ids : List Nat} {vs : List Value},
    g.ShowsAll n ids vs → SameFrom (n + 1) g g' → g'.ShowsAll n ids vs
  | _, _, _, .nil, _ => .nil
  | _, _, _, .cons hlt hi h, hg => .cons hlt (hi.transfer (hg.mono hlt)) (h.transfer hg)

theorem ShowsEntries.transfer : ∀ {n : Nat} {ids : List (Nat × Nat)}
    {fields : List (Value × Value)},
    g.ShowsEntries n ids fields → SameFrom (n + 1) g g' → g'.ShowsEntries n ids fields
  | _, _, _, .nil, _ => .nil
  | _, _, _, .cons hk hkey hlt hi h, hg =>
    .cons hk (hkey.transfer (hg.mono hk)) hlt (hi.transfer (hg.mono hlt)) (h.transfer hg)

end

structure Extends (g g' : Graph) : Prop where
  size : g.shapes.size ≤ g'.shapes.size
  same : SameFrom 0 g g'

theorem Extends.refl (g : Graph) : Extends g g := ⟨le_rfl, fun _ _ _ => rfl⟩

theorem Extends.trans (h : Extends g₁ g₂) (h' : Extends g₂ g₃) : Extends g₁ g₃ := by
  refine ⟨h.size.trans h'.size, fun m hm hlt => ?_⟩
  rw [h'.same m hm (hlt.trans_le h.size), h.same m hm hlt]

theorem extends_push (g : Graph) (s : Shape) : Extends g (g.push s) :=
  ⟨by simp, fun _ _ hlt => shape_push hlt s⟩

theorem Extends.lt_size (h : Extends (g.push s) g') : g.shapes.size < g'.shapes.size := by
  have hle := h.size
  rw [size_push] at hle
  omega

theorem Extends.set_size (h : Extends (g.push s) g') (s' : Shape) :
    Extends g (g'.set g.shapes.size s') := by
  refine ⟨?_, fun m hm hlt => ?_⟩
  · rw [size_set]
    exact h.lt_size.le
  · have hpush : m < (g.push s).shapes.size := by
      rw [size_push]
      omega
    rw [shape_set_of_ne hlt.ne', h.same m hm hpush, shape_push hlt]

theorem sameFrom_set (g : Graph) (n : Nat) (s : Shape) : SameFrom (n + 1) g (g.set n s) :=
  fun m hm _ => shape_set_of_ne (by omega) s

theorem add_content (t : Tag) (c : Content) (g : Graph) :
    add (c.node t) g = (g.shapes.size, g.push (.scalar t c)) := by
  cases c <;> rfl

theorem showsScalar_push {t : Tag} {c : Content} (h : c.value t = .ok v) (g : Graph) :
    (g.push (.scalar t c)).ShowsScalar g.shapes.size v :=
  ⟨t, c, shape_push_size g _, h⟩

theorem Extends.sameFrom (h : Extends g g') (n : Nat) : SameFrom n g g' := h.same.mono n.zero_le

mutual

/-- A node gets the next number, and shows there what it denotes. -/
theorem shows_add : ∀ {node : Node} {v : Value}, Denotes node v → ∀ g : Graph,
    (add node g).1 = g.shapes.size ∧ Extends g (add node g).2 ∧
      (add node g).2.Shows g.shapes.size v
  | _, _, .scalar (t := t) (c := c) hv, g => by
    rw [add_content]
    exact ⟨rfl, extends_push g _, .scalar (showsScalar_push hv g)⟩
  | _, _, .list h, g => by
    have hlt : g.shapes.size < (g.push (.sequence .seq [])).shapes.size := by simp
    obtain ⟨he, hs⟩ := showsAll_addItems h _ hlt
    exact ⟨rfl, he.set_size _, .list (shape_set he.lt_size _) (hs.transfer (sameFrom_set _ _ _))⟩
  | _, _, .map h, g => by
    have hlt : g.shapes.size < (g.push (.mapping .map [])).shapes.size := by simp
    obtain ⟨he, hs⟩ := showsEntries_addEntries h _ hlt
    exact ⟨rfl, he.set_size _, .map (shape_set he.lt_size _) (hs.transfer (sameFrom_set _ _ _))⟩

theorem showsAll_addItems : ∀ {items : List Node} {vs : List Value}, DenotesAll items vs →
    ∀ (g : Graph) {n : Nat}, n < g.shapes.size →
      Extends g (addItems items g).2 ∧ (addItems items g).2.ShowsAll n (addItems items g).1 vs
  | _, _, .nil, g, _, _ => ⟨.refl g, .nil⟩
  | _, _, .cons (n := node) hn h, g, n, hlt => by
    obtain ⟨hid, he, hs⟩ := shows_add hn g
    obtain ⟨he', hs'⟩ := showsAll_addItems h (add node g).2 (hlt.trans_le he.size)
    rw [← hid] at hs hlt
    exact ⟨he.trans he', .cons hlt (hs.transfer (he'.sameFrom _)) hs'⟩

theorem showsEntries_addEntries : ∀ {entries : List (Node × Node)}
    {fields : List (Value × Value)}, DenotesEntries entries fields →
    ∀ (g : Graph) {n : Nat}, n < g.shapes.size →
      Extends g (addEntries entries g).2 ∧
        (addEntries entries g).2.ShowsEntries n (addEntries entries g).1 fields
  | _, _, .nil, g, _, _ => ⟨.refl g, .nil⟩
  | _, _, .cons (t := t) (c := c) (n := node) hk hn h, g, n, hlt => by
    obtain ⟨hid, he, hs⟩ := shows_add hn (g.push (.scalar t c))
    have hpush : n < (g.push (.scalar t c)).shapes.size := hlt.trans_le (extends_push g _).size
    obtain ⟨he', hs'⟩ := showsEntries_addEntries h _ (hpush.trans_le he.size)
    have hkey := (showsScalar_push hk g).transfer ((he.trans he').sameFrom _)
    rw [← hid] at hs hpush
    rw [addEntries, add_content]
    exact ⟨(extends_push g _).trans (he.trans he'),
      .cons hlt hkey hpush (hs.transfer (he'.sameFrom _)) hs'⟩

end

end Graph

end RouteBook.Yaml
