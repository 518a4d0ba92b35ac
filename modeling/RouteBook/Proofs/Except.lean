import Mathlib.Data.List.Basic

/-! Computations that may fail: where a result or a failure comes from. -/
namespace RouteBook.Outcome
variable {ε α β : Type}

/-- A computation that fails only in some ways and gives only some results. -/
def Meets (E : ε → Prop) (P : α → Prop) : Except ε α → Prop
  | .ok a => P a
  | .error e => E e

theorem Meets.bind {E : ε → Prop} {P : α → Prop} {Q : β → Prop} {x : Except ε α}
    {f : α → Except ε β} (h : Meets E P x) (hf : ∀ a, P a → Meets E Q (f a)) :
    Meets E Q (x >>= f) := by
  cases x with
  | error e => exact h
  | ok a => exact hf a h

theorem Meets.ite {E : ε → Prop} {P : α → Prop} {p : Prop} [Decidable p] {x y : Except ε α}
    (hx : Meets E P x) (hy : Meets E P y) : Meets E P (if p then x else y) := by
  split
  · exact hx
  · exact hy

theorem ok_bind (x : α) (f : α → Except ε β) : (Except.ok x >>= f) = f x := rfl

theorem bind_eq_ok_iff (x : Except ε α) (f : α → Except ε β) (b : β) :
    (x >>= f) = .ok b ↔ ∃ a, x = .ok a ∧ f a = .ok b := by
  cases x <;> simp [Bind.bind, Except.bind]

theorem bind_eq_error_iff (x : Except ε α) (f : α → Except ε β) (e : ε) :
    (x >>= f) = .error e ↔ x = .error e ∨ ∃ a, x = .ok a ∧ f a = .error e := by
  cases x <;> simp [Bind.bind, Except.bind]

theorem map_eq_error_iff (f : α → β) (x : Except ε α) (e : ε) :
    f <$> x = .error e ↔ x = .error e := by
  cases x <;> simp [Functor.map, Except.map]

theorem map_eq_ok_iff (f : α → β) (x : Except ε α) (b : β) :
    f <$> x = .ok b ↔ ∃ a, x = .ok a ∧ f a = b := by
  cases x <;> simp [Functor.map, Except.map]

theorem mapM_cons_error (f : α → Except ε β) {x : α} (xs : List α) {e : ε}
    (h : f x = .error e) : (x :: xs).mapM f = .error e := by
  rw [List.mapM_cons, h]
  rfl

theorem mapM_cons_ok (f : α → Except ε β) {x : α} (xs : List α) {b : β} (h : f x = .ok b) :
    (x :: xs).mapM f = (b :: ·) <$> xs.mapM f := by
  rw [List.mapM_cons, h]
  rfl

theorem mem_of_mapM {f : α → Except ε β} {xs : List α} {ys : List β} {y : β}
    (h : xs.mapM f = .ok ys) (hy : y ∈ ys) : ∃ x ∈ xs, f x = .ok y := by
  induction xs generalizing ys with
  | nil =>
    cases h
    simp at hy
  | cons x xs ih =>
    cases hx : f x with
    | error e =>
      rw [mapM_cons_error f xs hx] at h
      cases h
    | ok b =>
      rw [mapM_cons_ok f xs hx, map_eq_ok_iff] at h
      obtain ⟨bs, hbs, rfl⟩ := h
      rcases List.mem_cons.mp hy with rfl | hy
      · exact ⟨x, by simp, hx⟩
      · obtain ⟨z, hz, he⟩ := ih hbs hy
        exact ⟨z, List.mem_cons_of_mem x hz, he⟩

theorem mapM_eq_ok_map {f : α → Except ε β} (g : α → β) {xs : List α}
    (h : ∀ x ∈ xs, f x = .ok (g x)) : xs.mapM f = .ok (xs.map g) := by
  induction xs with
  | nil => rfl
  | cons x xs ih =>
    have ht := ih fun z hz => h z (List.mem_cons_of_mem x hz)
    rw [mapM_cons_ok f xs (h x (by simp)), ht]
    rfl

/-- Where every member has a result, all results together are those of the members. -/
theorem exists_mapM {f : α → Except ε β} {P : α → β → Prop} {xs : List α}
    (h : ∀ x ∈ xs, ∃ y, f x = .ok y ∧ P x y) :
    ∃ ys, xs.mapM f = .ok ys ∧ (∀ y ∈ ys, ∃ x ∈ xs, P x y) ∧ ∀ x ∈ xs, ∃ y ∈ ys, P x y := by
  induction xs with
  | nil => exact ⟨[], rfl, by simp, by simp⟩
  | cons x xs ih =>
    obtain ⟨y, hy, hp⟩ := h x (by simp)
    obtain ⟨ys, hys, hsound, hcomplete⟩ := ih fun z hz => h z (List.mem_cons_of_mem x hz)
    refine ⟨y :: ys, by rw [mapM_cons_ok f xs hy, hys]; rfl, ?_, ?_⟩
    · refine List.forall_mem_cons.mpr ⟨⟨x, by simp, hp⟩, fun z hz => ?_⟩
      obtain ⟨w, hw, hpw⟩ := hsound z hz
      exact ⟨w, List.mem_cons_of_mem x hw, hpw⟩
    · refine List.forall_mem_cons.mpr ⟨⟨y, by simp, hp⟩, fun z hz => ?_⟩
      obtain ⟨w, hw, hpw⟩ := hcomplete z hz
      exact ⟨w, List.mem_cons_of_mem y hw, hpw⟩

end RouteBook.Outcome
