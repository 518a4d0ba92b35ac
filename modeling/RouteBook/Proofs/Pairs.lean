import Mathlib.Data.List.Induction
import Mathlib.Data.List.Nodup
import RouteBook.Pairs

/-! Laws of ordered mappings: what can be read after something was put, and which keys there
are. -/
namespace RouteBook.Pairs
variable {α β : Type} [BEq α]

-- The equations of these functions are made here once, so that no theorem waits for them.
section
attribute [local simp] put get?
end

/-- Keys that all satisfy a condition can be put without a look at how keys compare. -/
theorem all_keys_put {p : α → Bool} {key : α} (hk : p key = true) (value : β)
    (m : List (α × β)) : ((put key value m).all fun f => p f.1) = m.all fun f => p f.1 := by
  induction m with
  | nil => simp [put, hk]
  | cons f m ih =>
    by_cases hf : (f.1 == key) = true
    · simp [put, hf]
    · simp only [put, hf, Bool.false_eq_true, if_false, List.all_cons, ih]

theorem all_keys_update {p : α → Bool} {new : List (α × β)}
    (h : ∀ f ∈ new, p f.1 = true) (m : List (α × β)) :
    ((update m new).all fun f => p f.1) = m.all fun f => p f.1 := by
  induction new generalizing m with
  | nil => rfl
  | cons f new ih =>
    change ((update (put f.1 f.2 m) new).all fun f => p f.1) = _
    rw [ih (fun g hg => h g (List.mem_cons_of_mem f hg)), all_keys_put (h f (by simp))]

theorem put_of_fresh {key : α} (value : β) {m : List (α × β)}
    (h : ∀ p ∈ m, (p.1 == key) = false) : put key value m = m ++ [(key, value)] := by
  induction m with
  | nil => rfl
  | cons p m ih =>
    have hp := h p (by simp)
    have ht := ih fun q hq => h q (List.mem_cons_of_mem p hq)
    simp [put, hp, ht]

theorem update_of_fresh {m new : List (α × β)}
    (hn : new.Pairwise fun p q => (p.1 == q.1) = false)
    (hm : ∀ p ∈ m, ∀ q ∈ new, (p.1 == q.1) = false) : update m new = m ++ new := by
  induction new generalizing m with
  | nil => simp [update]
  | cons q new ih =>
    obtain ⟨hq, hr⟩ := List.pairwise_cons.mp hn
    have hput := put_of_fresh q.2 fun p hp => hm p hp q (by simp)
    have hrest : ∀ p ∈ m ++ [(q.1, q.2)], ∀ r ∈ new, (p.1 == r.1) = false := by
      intro p hp r hr
      rcases List.mem_append.mp hp with hp | hp
      · exact hm p hp r (List.mem_cons_of_mem q hr)
      · rw [List.mem_singleton.mp hp]
        exact hq r hr
    change update (put q.1 q.2 m) new = _
    rw [hput, ih hr hrest, List.append_assoc, List.singleton_append]

theorem ofList_of_distinct {m : List (α × β)}
    (h : m.Pairwise fun p q => (p.1 == q.1) = false) : ofList m = m :=
  update_of_fresh (m := []) h (by simp)

theorem get?_append (key : α) (m n : List (α × β)) :
    get? key (m ++ n) = (get? key m).or (get? key n) := by
  induction m with
  | nil => rfl
  | cons p m ih =>
    by_cases hp : (p.1 == key) = true
    · simp [get?, hp]
    · simpa [get?, hp] using ih

theorem get?_map {γ : Type} (f : β → γ) (key : α) (m : List (α × β)) :
    get? key (m.map fun p => (p.1, f p.2)) = (get? key m).map f := by
  induction m with
  | nil => rfl
  | cons p m ih =>
    by_cases hp : (p.1 == key) = true
    · simp [get?, hp]
    · simpa [get?, hp] using ih

omit [BEq α] in
theorem keys_map {γ : Type} (f : β → γ) (m : List (α × β)) :
    keys (m.map fun p => (p.1, f p.2)) = keys m := by
  simp [keys, Function.comp_def]

theorem ofList_concat (pairs : List (α × β)) (p : α × β) :
    ofList (pairs ++ [p]) = put p.1 p.2 (ofList pairs) := by
  rw [ofList, List.foldl_append]
  rfl

section Lawful
variable [LawfulBEq α]

theorem get?_eq_none_iff {key : α} {m : List (α × β)} : get? key m = none ↔ key ∉ keys m := by
  induction m with
  | nil => simp [get?, keys]
  | cons p m ih =>
    by_cases hp : p.1 = key
    · simp [get?, keys, hp]
    · have hk : key ≠ p.1 := Ne.symm hp
      simpa [get?, keys, hp, hk] using ih

theorem contains_iff {key : α} {m : List (α × β)} : contains key m = true ↔ key ∈ keys m := by
  rw [contains, Option.isSome_iff_ne_none, ne_eq, get?_eq_none_iff, not_not]

theorem exists_get?_of_mem_keys {key : α} {m : List (α × β)} (h : key ∈ keys m) :
    ∃ value, get? key m = some value :=
  Option.isSome_iff_exists.mp (contains_iff.mpr h)

theorem mem_of_get? {key : α} {value : β} {m : List (α × β)} (h : get? key m = some value) :
    (key, value) ∈ m := by
  induction m with
  | nil => simp [get?] at h
  | cons p m ih =>
    by_cases hp : p.1 = key
    · simp only [get?, hp, beq_self_eq_true, if_true, Option.some.injEq] at h
      simp [← hp, ← h]
    · simp only [get?, beq_eq_false_iff_ne.mpr hp, Bool.false_eq_true, if_false] at h
      exact List.mem_cons_of_mem p (ih h)

theorem get?_of_mem {key : α} {value : β} {m : List (α × β)} (hd : (keys m).Nodup)
    (h : (key, value) ∈ m) : get? key m = some value := by
  induction m with
  | nil => simp at h
  | cons p m ih =>
    obtain ⟨hp, hm⟩ := List.nodup_cons.mp hd
    rcases List.mem_cons.mp h with rfl | h
    · simp [get?]
    · have hne : p.1 ≠ key := by
        rintro rfl
        exact hp (List.mem_map.mpr ⟨_, h, rfl⟩)
      simpa [get?, hne] using ih hm h

theorem put_of_get? {key : α} {old : β} {m : List (α × β)} (h : get? key m = some old) :
    ∃ pre post, m = pre ++ (key, old) :: post ∧
      ∀ value, put key value m = pre ++ (key, value) :: post := by
  induction m with
  | nil => simp [get?] at h
  | cons p m ih =>
    obtain ⟨k, v⟩ := p
    by_cases hk : k = key
    · subst hk
      simp only [get?, beq_self_eq_true, if_true, Option.some.injEq] at h
      subst h
      exact ⟨[], m, rfl, fun value => by simp [put]⟩
    · simp only [get?, beq_eq_false_iff_ne.mpr hk, Bool.false_eq_true, if_false] at h
      obtain ⟨pre, post, rfl, hput⟩ := ih h
      exact ⟨(k, v) :: pre, post, rfl, fun value => by simp [put, hk, hput]⟩

theorem put_of_get?_none {key : α} {m : List (α × β)} (h : get? key m = none) (value : β) :
    put key value m = m ++ [(key, value)] := by
  refine put_of_fresh value fun p hp => ?_
  rw [get?_eq_none_iff] at h
  exact beq_eq_false_iff_ne.mpr fun he => h (List.mem_map.mpr ⟨p, hp, he⟩)

theorem get?_put_self (key : α) (value : β) (m : List (α × β)) :
    get? key (put key value m) = some value := by
  induction m with
  | nil => simp [put, get?]
  | cons p m ih => by_cases hp : p.1 = key <;> simp [put, get?, hp, ih]

theorem get?_put_of_ne {key other : α} (h : other ≠ key) (value : β) (m : List (α × β)) :
    get? other (put key value m) = get? other m := by
  induction m with
  | nil => simp [put, get?, Ne.symm h]
  | cons p m ih =>
    by_cases hp : p.1 = key
    · simp [put, get?, hp, Ne.symm h]
    · by_cases ho : p.1 = other <;> simp [put, get?, hp, ho, ih, h]

theorem get?_erase_self (key : α) (m : List (α × β)) : get? key (erase key m) = none := by
  rw [get?_eq_none_iff, keys, erase]
  simp

theorem get?_erase_of_ne {key other : α} (h : other ≠ key) (m : List (α × β)) :
    get? other (erase key m) = get? other m := by
  induction m with
  | nil => rfl
  | cons p m ih =>
    rw [erase] at ih ⊢
    by_cases hp : p.1 = key
    · have ho : (p.1 == other) = false := by simpa [hp] using Ne.symm h
      rw [List.filter_cons_of_neg (by simp [hp]), ih, get?, ho]
      rfl
    · by_cases ho : p.1 = other <;> simp [hp, get?, ho, ih, h]

theorem keys_put (key : α) (value : β) (m : List (α × β)) :
    keys (put key value m) = if key ∈ keys m then keys m else keys m ++ [key] := by
  induction m with
  | nil => simp [put, keys]
  | cons p m ih =>
    by_cases hp : p.1 = key
    · simp [put, keys, hp]
    · have hk : key ≠ p.1 := Ne.symm hp
      have hput : keys (put key value (p :: m)) = p.1 :: keys (put key value m) := by
        simp [put, keys, hp]
      have hmem : key ∈ keys (p :: m) ↔ key ∈ keys m := by simp [keys, hk]
      rw [hput, ih]
      by_cases hm : key ∈ keys m
      · rw [if_pos hm, if_pos (hmem.mpr hm)]
        rfl
      · rw [if_neg hm, if_neg (mt hmem.mp hm)]
        rfl

theorem mem_keys_put {key k : α} {value : β} {m : List (α × β)} :
    k ∈ keys (put key value m) ↔ k = key ∨ k ∈ keys m := by
  rw [keys_put]
  by_cases hm : key ∈ keys m
  · rw [if_pos hm]
    exact ⟨Or.inr, fun h => h.elim (fun he => he ▸ hm) id⟩
  · rw [if_neg hm, List.mem_append, List.mem_singleton]
    exact or_comm

theorem mem_keys_update {k : α} {m new : List (α × β)} :
    k ∈ keys (update m new) ↔ k ∈ keys m ∨ k ∈ keys new := by
  induction new generalizing m with
  | nil => simp [update, keys]
  | cons p new ih =>
    change k ∈ keys (update (put p.1 p.2 m) new) ↔ _
    rw [ih, mem_keys_put]
    simp only [keys, List.map_cons, List.mem_cons]
    tauto

theorem mem_put {key : α} {value : β} {m : List (α × β)} {p : α × β}
    (h : p ∈ put key value m) : p = (key, value) ∨ p ∈ m := by
  cases hg : get? key m with
  | none =>
    rw [put_of_get?_none hg, List.mem_append, List.mem_singleton] at h
    exact h.symm
  | some old =>
    obtain ⟨pre, post, rfl, hput⟩ := put_of_get? hg
    rw [hput] at h
    simp only [List.mem_append, List.mem_cons] at h ⊢
    tauto

theorem mem_update {m new : List (α × β)} {p : α × β} (h : p ∈ update m new) :
    p ∈ m ∨ p ∈ new := by
  induction new generalizing m with
  | nil => exact .inl h
  | cons q new ih =>
    rcases ih h with h | h
    · rcases mem_put h with rfl | h
      · exact .inr (by simp)
      · exact .inl h
    · exact .inr (List.mem_cons_of_mem q h)

theorem nodup_keys_put {m : List (α × β)} (h : (keys m).Nodup) (key : α) (value : β) :
    (keys (put key value m)).Nodup := by
  rw [keys_put]
  by_cases hm : key ∈ keys m
  · rwa [if_pos hm]
  · rw [if_neg hm, List.nodup_append]
    refine ⟨h, by simp, ?_⟩
    intro k hk k' hk' he
    rw [List.mem_singleton.mp hk'] at he
    exact hm (he ▸ hk)

theorem nodup_keys_update {m : List (α × β)} (h : (keys m).Nodup) (new : List (α × β)) :
    (keys (update m new)).Nodup := by
  induction new generalizing m with
  | nil => exact h
  | cons p new ih => exact ih (nodup_keys_put h p.1 p.2)

theorem nodup_keys_ofList (pairs : List (α × β)) : (keys (ofList pairs)).Nodup :=
  nodup_keys_update (m := []) (by simp [keys]) pairs

theorem eraseDups_concat (l : List α) (a : α) :
    (l ++ [a]).eraseDups = if a ∈ l then l.eraseDups else l.eraseDups ++ [a] := by
  rw [List.eraseDups_append, List.removeAll]
  by_cases ha : a ∈ l
  · simp [ha]
  · simp [ha, List.eraseDups_cons]

theorem nodup_eraseDups (l : List α) : l.eraseDups.Nodup := by
  induction l using List.reverseRecOn with
  | nil => simp
  | append_singleton l a ih =>
    rw [eraseDups_concat]
    split
    · exact ih
    · next ha =>
      refine List.nodup_append.mpr ⟨ih, by simp, fun b hb c hc he => ha ?_⟩
      rw [← List.mem_singleton.mp hc, ← he]
      exact List.mem_eraseDups.mp hb

/-- Of pairs that are put one after the other, a key keeps its first place. -/
theorem keys_ofList (pairs : List (α × β)) : keys (ofList pairs) = (keys pairs).eraseDups := by
  induction pairs using List.reverseRecOn with
  | nil => rfl
  | append_singleton pairs p ih =>
    have hkeys : keys (pairs ++ [p]) = keys pairs ++ [p.1] := by simp [keys]
    rw [ofList_concat, keys_put, ih, hkeys, eraseDups_concat]
    simp only [List.mem_eraseDups]

/-- Of pairs that are put one after the other, the last value of a key counts. -/
theorem get?_ofList (key : α) (pairs : List (α × β)) :
    get? key (ofList pairs) = ((pairs.filter (·.1 == key)).getLast?).map Prod.snd := by
  induction pairs using List.reverseRecOn with
  | nil => rfl
  | append_singleton pairs p ih =>
    rw [ofList_concat, List.filter_append]
    by_cases hp : p.1 = key
    · rw [hp, get?_put_self]
      simp [hp]
    · rw [get?_put_of_ne (Ne.symm hp), ih]
      simp [hp]

/-- Mappings with the same keys in the same order that give the same values are equal. -/
theorem ext_of_nodup {m n : List (α × β)} (hd : (keys m).Nodup) (hk : keys m = keys n)
    (hv : ∀ k, get? k m = get? k n) : m = n := by
  induction m generalizing n with
  | nil =>
    cases n with
    | nil => rfl
    | cons q n => simp [keys] at hk
  | cons p m ih =>
    cases n with
    | nil => simp [keys] at hk
    | cons q n =>
      obtain ⟨k, v⟩ := p
      obtain ⟨k', w⟩ := q
      obtain ⟨rfl, hrest⟩ : k = k' ∧ keys m = keys n := by simpa [keys] using hk
      obtain ⟨hfresh, hnodup⟩ := List.nodup_cons.mp hd
      obtain rfl : v = w := by simpa [get?] using hv k
      refine congrArg _ (ih hnodup hrest fun j => ?_)
      by_cases hj : k = j
      · subst hj
        rw [get?_eq_none_iff.mpr hfresh, get?_eq_none_iff.mpr (hrest ▸ hfresh)]
      · simpa [get?, hj] using hv j

section Rows
variable {γ δ : Type}

theorem row_put (key k : α) (x : γ) (m : List (α × List γ)) :
    (get? k (put key ((get? key m).getD [] ++ [x]) m)).getD [] =
      (get? k m).getD [] ++ if key == k then [x] else [] := by
  by_cases hk : key = k
  · subst hk
    simp [get?_put_self]
  · simp [get?_put_of_ne (Ne.symm hk), hk]

theorem flatMap_put_perm (f : α → γ → δ) (key : α) (x : γ) (m : List (α × List γ)) :
    ((put key ((get? key m).getD [] ++ [x]) m).flatMap fun r => r.2.map (f r.1)).Perm
      (f key x :: m.flatMap fun r => r.2.map (f r.1)) := by
  cases hg : get? key m with
  | none =>
    rw [put_of_get?_none hg, List.flatMap_append]
    exact List.perm_append_singleton (f key x) _
  | some row =>
    obtain ⟨pre, post, rfl, hput⟩ := put_of_get? hg
    have hmid : ((put key (row ++ [x]) (pre ++ (key, row) :: post)).flatMap fun r =>
        r.2.map (f r.1)) = ((pre.flatMap fun r => r.2.map (f r.1)) ++ row.map (f key)) ++
          f key x :: post.flatMap fun r => r.2.map (f r.1) := by
      simp [hput]
    have hold : ((pre ++ (key, row) :: post).flatMap fun r => r.2.map (f r.1)) =
        ((pre.flatMap fun r => r.2.map (f r.1)) ++ row.map (f key)) ++
          post.flatMap fun r => r.2.map (f r.1) := by
      simp
    rw [Option.getD_some, hmid, hold]
    exact List.perm_middle

end Rows

end Lawful

end RouteBook.Pairs
