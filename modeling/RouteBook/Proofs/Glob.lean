import RouteBook.Glob
import RouteBook.Proofs.Except
import RouteBook.Proofs.FileTree

/-! Where a pattern leads. Main statement: from a directory, a pattern that goes only downwards and
ends with a name leads exactly to what stands at the paths that it matches, component by
component. -/
namespace RouteBook

namespace FileTree
variable {t c : FileTree} {es : List (String × FileTree)} {n : String} {ns ms : List String}

/-- Induction over a tree: a directory from all that stands in it. -/
theorem induct {P : FileTree → Prop} (file : ∀ data, P (.file data))
    (dir : ∀ es, (∀ e ∈ es, P e.2) → P (.dir es)) (t : FileTree) : P t := by
  refine @FileTree.rec P (fun es => ∀ e ∈ es, P e.2) (fun e => P e.2) file dir ?_ ?_ ?_ t
  · simp
  · intro e es he hes
    exact List.forall_mem_cons.mpr ⟨he, hes⟩
  · exact fun _ _ h => h

def Distinct (t : FileTree) : Prop :=
  ∀ ns es, t.at? ns = some (.dir es) → (Pairs.keys es).Nodup

theorem at?_cons (t : FileTree) (n : String) (ns : List String) :
    t.at? (n :: ns) = (t.child? n).bind (·.at? ns) := by
  rw [at?]
  cases t.child? n <;> rfl

theorem at?_append (t : FileTree) (ns ms : List String) :
    t.at? (ns ++ ms) = (t.at? ns).bind (·.at? ms) := by
  induction ns generalizing t with
  | nil => rfl
  | cons n ns ih =>
    rw [List.cons_append, at?_cons, at?_cons, Option.bind_assoc]
    exact congrArg (Option.bind (t.child? n)) (funext ih)

theorem isDir_of_at? (h : t.at? ns = some c) (hns : ns ≠ []) : t.isDir = true := by
  cases ns with
  | nil => exact absurd rfl hns
  | cons n ns =>
    cases t with
    | file data => cases h
    | dir es => rfl

theorem Distinct.at? (h : t.Distinct) (hc : t.at? ns = some c) : c.Distinct := by
  intro ms es he
  apply h (ns ++ ms)
  rw [at?_append, hc]
  exact he

theorem Distinct.child? (h : t.Distinct) (hc : t.child? n = some c) : c.Distinct :=
  h.at? (show t.at? [n] = some c by rw [at?_cons, hc]; rfl)

theorem Distinct.child?_of_mem (h : (dir es).Distinct) (hm : (n, c) ∈ es) :
    (dir es).child? n = some c :=
  Pairs.get?_of_mem (h [] es rfl) hm

@[simp] theorem distinct_file (data : List UInt8) : (file data).Distinct := by
  intro ns es h
  cases ns <;> cases h

@[simp] theorem distinct_dir_iff :
    (dir es).Distinct ↔ (Pairs.keys es).Nodup ∧ ∀ e ∈ es, e.2.Distinct := by
  constructor
  · intro h
    exact ⟨h [] es rfl, fun e he => h.child? (h.child?_of_mem he)⟩
  · intro ⟨hkeys, hall⟩ ns fs hat
    cases ns with
    | nil =>
      obtain rfl := FileTree.dir.inj (Option.some.inj hat)
      exact hkeys
    | cons n ns =>
      rw [at?_cons] at hat
      obtain ⟨c, hc, hbelow⟩ := Option.bind_eq_some_iff.mp hat
      exact hall (n, c) (Pairs.mem_of_get? hc) ns fs hbelow

theorem mem_of_child? (h : t.child? n = some c) : (n, c) ∈ t.entries := Pairs.mem_of_get? h

end FileTree

namespace NamePart

/-- A star stands for any characters. -/
theorem fits_star (ps : List NamePart) (s : List Char) :
    fits (.star :: ps) s = true ↔ ∃ a b, s = a ++ b ∧ fits ps b = true := by
  induction s with
  | nil =>
    rw [fits]
    constructor
    · exact fun h => ⟨[], [], rfl, h⟩
    · rintro ⟨a, b, he, h⟩
      rwa [(List.append_eq_nil_iff.mp he.symm).2] at h
  | cons c s ih =>
    rw [fits, Bool.or_eq_true, ih]
    constructor
    · rintro (h | ⟨a, b, rfl, h⟩)
      · exact ⟨[], c :: s, rfl, h⟩
      · exact ⟨c :: a, b, rfl, h⟩
    · rintro ⟨a, b, he, h⟩
      cases a with
      | nil => exact .inl (he ▸ h)
      | cons d a => exact .inr ⟨a, b, (List.cons.inj he).2, h⟩

/-- Characters stand for themselves. -/
theorem fits_chars (cs s : List Char) : fits (cs.map .char) s = true ↔ s = cs := by
  induction cs generalizing s with
  | nil => cases s <;> simp [fits]
  | cons c cs ih => cases s <;> simp [fits, admits, ih]

end NamePart

namespace Glob
open FileTree
variable {s r : Spot} {ss : List Spot} {t : FileTree} {shown : List String}
  {above : List FileTree} {Q : List String → Prop}

structure Reaches (s : Spot) (Q : List String → Prop) (ss : List Spot) : Prop where
  sound : ∀ r ∈ ss, ∃ p, Q p ∧ r.shown = s.shown ++ p ∧ s.tree.at? p = some r.tree
  complete : ∀ p t, Q p → s.tree.at? p = some t → ∃ r ∈ ss, r.shown = s.shown ++ p ∧ r.tree = t

section Directories

theorem mem_dirsBelow {es : List (String × FileTree)} :
    r ∈ dirsBelow shown above es ↔ ∃ e ∈ es, r ∈ dirsFrom (shown ++ [e.1]) above e.2 := by
  induction es with
  | nil => simp [dirsBelow]
  | cons e es ih => simp [dirsBelow, ih]

theorem at?_of_mem_dirsFrom (hd : t.Distinct) (h : r ∈ dirsFrom shown above t) :
    ∃ p, r.shown = shown ++ p ∧ t.at? p = some r.tree := by
  induction t using FileTree.induct generalizing shown above with
  | file data => simp [dirsFrom] at h
  | dir es ih =>
    rw [dirsFrom, List.mem_cons, mem_dirsBelow] at h
    obtain rfl | ⟨⟨n, c⟩, he, hr⟩ := h
    · exact ⟨[], by simp, rfl⟩
    · have hc := hd.child?_of_mem he
      obtain ⟨p, hp, hat⟩ := ih (n, c) he (hd.child? hc) hr
      refine ⟨n :: p, by simp [hp], ?_⟩
      rw [at?_cons, hc]
      exact hat

theorem exists_mem_dirsFrom {p : List String} {d : FileTree} (h : t.at? p = some d)
    (hdir : d.isDir = true) (shown : List String) (above : List FileTree) :
    ∃ r ∈ dirsFrom shown above t, r.shown = shown ++ p ∧ r.tree = d := by
  induction p generalizing t shown above with
  | nil =>
    obtain rfl : t = d := Option.some.inj h
    cases t with
    | file data => cases hdir
    | dir es => exact ⟨⟨shown, .dir es, above⟩, by simp [dirsFrom], by simp, rfl⟩
  | cons n p ih =>
    rw [at?_cons] at h
    obtain ⟨c, hc, hat⟩ := Option.bind_eq_some_iff.mp h
    cases t with
    | file data => cases hc
    | dir es =>
      obtain ⟨r, hr, hshown, htree⟩ := ih hat (shown ++ [n]) (.dir es :: above)
      refine ⟨r, ?_, by simp [hshown], htree⟩
      rw [dirsFrom, List.mem_cons, mem_dirsBelow]
      exact .inr ⟨(n, c), mem_of_child? hc, hr⟩

end Directories

section Distinct

theorem mem_of_mem_distinct (h : r ∈ distinct ss) : r ∈ ss := by
  induction ss with
  | nil => exact h
  | cons s ss ih =>
    rw [distinct, List.mem_cons, List.mem_filter] at h
    obtain rfl | ⟨h, -⟩ := h
    · exact List.mem_cons_self
    · exact List.mem_cons_of_mem s (ih h)

theorem exists_mem_distinct (h : r ∈ ss) : ∃ q ∈ distinct ss, q.shown = r.shown := by
  induction ss with
  | nil => cases h
  | cons s ss ih =>
    by_cases hs : s.shown = r.shown
    · exact ⟨s, by simp [distinct], hs⟩
    · obtain rfl | h := List.mem_cons.mp h
      · exact absurd rfl hs
      · obtain ⟨q, hq, hshown⟩ := ih h
        refine ⟨q, ?_, hshown⟩
        rw [distinct, List.mem_cons, List.mem_filter]
        exact .inr ⟨hq, by simpa [hshown] using Ne.symm hs⟩

theorem nodup_shown_distinct (ss : List Spot) : ((distinct ss).map Spot.shown).Nodup := by
  induction ss with
  | nil => exact .nil
  | cons s ss ih =>
    rw [distinct, List.map_cons, List.nodup_cons]
    refine ⟨?_, ih.sublist (List.filter_sublist.map _)⟩
    simp

theorem Reaches.distinct (h : Reaches s Q ss) : Reaches s Q (distinct ss) where
  sound r hr := h.sound r (mem_of_mem_distinct hr)
  complete p t hp ht := by
    obtain ⟨r, hr, hshown, -⟩ := h.complete p t hp ht
    obtain ⟨q, hq, hsame⟩ := exists_mem_distinct hr
    -- The spot that was kept stands at the same place, so the same is there.
    obtain ⟨p', -, hp', ht'⟩ := h.sound q (mem_of_mem_distinct hq)
    obtain rfl : p' = p := List.append_cancel_left (hp'.symm.trans (hsame.trans hshown))
    exact ⟨q, hq, hp', Option.some.inj (ht'.symm.trans ht)⟩

end Distinct

def Matches : List GlobStep → List String → Prop
  | [], p => p = []
  | .deep :: rest, p => ∃ a b, p = a ++ b ∧ Matches rest b
  | .exact name :: rest, p => ∃ b, p = name :: b ∧ Matches rest b
  | .wild parts :: rest, p =>
    ∃ n b, p = n :: b ∧ NamePart.fits parts n.toList = true ∧ Matches rest b
  | .up :: _, _ => False

def descends : GlobStep → Bool
  | .exact name => decide (name.utf8ByteSize ≤ maxNameBytes)
  | .up => false
  | _ => true

/-- Steps that go only downwards and end with a name. -/
structure Descends (steps : List GlobStep) : Prop where
  down : ∀ step ∈ steps, descends step = true
  named : steps.getLast? ≠ some .deep

section Selecting
variable {step : GlobStep} {steps rest : List GlobStep} {name : String} {parts : List NamePart}

theorem Descends.tail (h : Descends (step :: rest)) : Descends rest := by
  refine ⟨fun st hst => h.down st (List.mem_cons_of_mem step hst), fun hlast => h.named ?_⟩
  rw [List.getLast?_cons, hlast]
  rfl

theorem Descends.ne_nil {p : List String} (h : Descends steps) (hs : steps ≠ [])
    (hp : Matches steps p) : p ≠ [] := by
  induction steps generalizing p with
  | nil => exact absurd rfl hs
  | cons step rest ih =>
    cases step with
    | deep =>
      obtain ⟨a, b, rfl, hb⟩ := hp
      have hrest : rest ≠ [] := by
        rintro rfl
        exact h.named rfl
      exact List.append_ne_nil_of_right_ne_nil a (ih h.tail hrest hb)
    | up => exact hp.elim
    | exact name =>
      obtain ⟨b, rfl, -⟩ := hp
      exact List.cons_ne_nil name b
    | wild parts =>
      obtain ⟨n, b, rfl, -⟩ := hp
      exact List.cons_ne_nil n b

/-- On the way to a path that is matched, only directories are passed. -/
theorem Descends.admits {c : FileTree} {b : List String} (h : Descends rest)
    (hb : Matches rest b) (ht : c.at? b = some t) : (rest.isEmpty && true || c.isDir) = true := by
  cases rest with
  | nil => rfl
  | cons step rest => simp [isDir_of_at? ht (h.ne_nil (List.cons_ne_nil step rest) hb)]

theorem reaches_deep {found : List (List Spot)} (hd : s.tree.Distinct)
    (h : Descends (.deep :: rest))
    (hsound : ∀ ss ∈ found, ∃ d ∈ dirsFrom s.shown s.above s.tree, Reaches d (Matches rest) ss)
    (hcomplete : ∀ d ∈ dirsFrom s.shown s.above s.tree,
      ∃ ss ∈ found, Reaches d (Matches rest) ss) :
    Reaches s (Matches (.deep :: rest)) found.flatten where
  sound r hr := by
    obtain ⟨ss, hss, hr⟩ := List.mem_flatten.mp hr
    obtain ⟨d, hmem, hreach⟩ := hsound ss hss
    obtain ⟨a, hshown, hat⟩ := at?_of_mem_dirsFrom hd hmem
    obtain ⟨b, hb, hrest, hbelow⟩ := hreach.sound r hr
    refine ⟨a ++ b, ⟨a, b, rfl, hb⟩, by rw [hrest, hshown, List.append_assoc], ?_⟩
    rw [at?_append, hat]
    exact hbelow
  complete p t hp ht := by
    obtain ⟨a, b, rfl, hb⟩ := hp
    rw [at?_append] at ht
    obtain ⟨c, hc, hbelow⟩ := Option.bind_eq_some_iff.mp ht
    have hrest : rest ≠ [] := by
      rintro rfl
      exact h.named rfl
    have hdir := isDir_of_at? hbelow (h.tail.ne_nil hrest hb)
    obtain ⟨d, hmem, hshown, rfl⟩ := exists_mem_dirsFrom hc hdir s.shown s.above
    obtain ⟨ss, hss, hreach⟩ := hcomplete d hmem
    obtain ⟨r, hr, hplace, htree⟩ := hreach.complete b t hb hbelow
    exact ⟨r, List.mem_flatten.mpr ⟨ss, hss, hr⟩, by rw [hplace, hshown, List.append_assoc], htree⟩

theorem select_exact (h : Descends (.exact name :: rest))
    (ih : ∀ c, s.tree.child? name = some c → ∃ ss, select false rest (s.child name c) = .ok ss ∧
      Reaches (s.child name c) (Matches rest) ss) :
    ∃ ss, select false (.exact name :: rest) s = .ok ss ∧
      Reaches s (Matches (.exact name :: rest)) ss := by
  have hshort : ¬ maxNameBytes < name.utf8ByteSize := by
    have hdown := h.down _ List.mem_cons_self
    simpa [descends] using hdown
  -- Nothing is matched unless the name is there and may be passed.
  have hnone (hno : ∀ b t c, Matches rest b → s.tree.child? name = some c → c.at? b ≠ some t) :
      Reaches s (Matches (.exact name :: rest)) [] := by
    refine ⟨by simp, ?_⟩
    rintro p t ⟨b, rfl, hb⟩ ht
    rw [at?_cons] at ht
    obtain ⟨c, hc, hbelow⟩ := Option.bind_eq_some_iff.mp ht
    exact absurd hbelow (hno b t c hb hc)
  rw [select]
  simp only [hshort, if_false]
  cases hc : s.tree.child? name with
  | none => exact ⟨[], rfl, hnone fun b t c _ h => by rw [hc] at h; cases h⟩
  | some c =>
    obtain ⟨ss, hss, hreach⟩ := ih c hc
    simp only
    split
    · refine ⟨ss, hss, fun r hr => ?_, ?_⟩
      · obtain ⟨b, hb, hshown, hat⟩ := hreach.sound r hr
        refine ⟨name :: b, ⟨b, rfl, hb⟩, by simp [hshown, Spot.child], ?_⟩
        rw [at?_cons, hc]
        exact hat
      · rintro p t ⟨b, rfl, hb⟩ ht
        rw [at?_cons, hc] at ht
        obtain ⟨r, hr, hshown, htree⟩ := hreach.complete b t hb ht
        exact ⟨r, hr, by simp [hshown, Spot.child], htree⟩
    · next hno =>
      refine ⟨[], rfl, hnone fun b t c' hb hc' hat => hno ?_⟩
      obtain rfl : c = c' := Option.some.inj (hc.symm.trans hc')
      exact h.tail.admits hb hat

theorem mem_children {n : String} (hd : s.tree.Distinct) :
    (n, r) ∈ s.children ↔ ∃ c, s.tree.child? n = some c ∧ r = s.child n c := by
  rw [Spot.children, List.mem_map]
  constructor
  · rintro ⟨⟨m, c⟩, hmem, he⟩
    obtain ⟨rfl, rfl⟩ := Prod.mk.inj he
    cases ht : s.tree with
    | file data => rw [ht] at hmem; cases hmem
    | dir es =>
      rw [ht] at hmem hd
      exact ⟨c, hd.child?_of_mem hmem, rfl⟩
  · rintro ⟨c, hc, rfl⟩
    exact ⟨(n, c), mem_of_child? hc, rfl⟩

theorem select_wild (hd : s.tree.Distinct) (h : Descends (.wild parts :: rest))
    (ih : ∀ n c, s.tree.child? n = some c → ∃ ss, select false rest (s.child n c) = .ok ss ∧
      Reaches (s.child n c) (Matches rest) ss) :
    ∃ ss, select false (.wild parts :: rest) s = .ok ss ∧
      Reaches s (Matches (.wild parts :: rest)) ss := by
  let hits := s.children.filter fun x =>
    (rest.isEmpty && true || x.2.tree.isDir) && NamePart.fits parts x.1.toList
  have hhits : ∀ x ∈ hits, ∃ ss, select false rest x.2 = .ok ss ∧
      Reaches x.2 (Matches rest) ss := by
    intro ⟨n, d⟩ hx
    obtain ⟨c, hc, rfl⟩ := (mem_children hd).mp (List.mem_filter.mp hx).1
    exact ih n c hc
  obtain ⟨found, hfound, hsound, hcomplete⟩ := Outcome.exists_mapM hhits
  refine ⟨found.flatten, ?_, fun r hr => ?_, ?_⟩
  · rw [select]
    exact congrArg (· >>= fun ss => Except.ok ss.flatten) hfound
  · obtain ⟨ss, hss, hr⟩ := List.mem_flatten.mp hr
    obtain ⟨⟨n, d⟩, hx, hreach⟩ := hsound ss hss
    obtain ⟨hmem, hfits⟩ := List.mem_filter.mp hx
    obtain ⟨c, hc, rfl⟩ := (mem_children hd).mp hmem
    obtain ⟨b, hb, hshown, hat⟩ := hreach.sound r hr
    refine ⟨n :: b, ⟨n, b, rfl, (Bool.and_eq_true_iff.mp hfits).2, hb⟩,
      by simp [hshown, Spot.child], ?_⟩
    rw [at?_cons, hc]
    exact hat
  · rintro p t ⟨n, b, rfl, hfits, hb⟩ ht
    rw [at?_cons] at ht
    obtain ⟨c, hc, hbelow⟩ := Option.bind_eq_some_iff.mp ht
    have hx : (n, s.child n c) ∈ hits := by
      refine List.mem_filter.mpr ⟨(mem_children hd).mpr ⟨c, hc, rfl⟩, ?_⟩
      exact Bool.and_eq_true_iff.mpr ⟨h.tail.admits hb hbelow, hfits⟩
    obtain ⟨ss, hss, hreach⟩ := hcomplete _ hx
    obtain ⟨r, hr, hshown, htree⟩ := hreach.complete b t hb hbelow
    exact ⟨r, List.mem_flatten.mpr ⟨ss, hss, hr⟩, by simp [hshown, Spot.child], htree⟩

/-- The spots that are selected are those at the paths that the steps match. -/
theorem select_reaches (hd : s.tree.Distinct) (h : Descends steps) :
    ∃ ss, select false steps s = .ok ss ∧ Reaches s (Matches steps) ss := by
  induction steps generalizing s with
  | nil =>
    refine ⟨[s], rfl, fun r hr => ?_, ?_⟩
    · rw [List.mem_singleton.mp hr]
      exact ⟨[], rfl, by simp, rfl⟩
    · rintro p t rfl ht
      exact ⟨s, by simp, by simp, Option.some.inj ht⟩
  | cons step rest ih =>
    cases step with
    | deep =>
      have hdirs : ∀ d ∈ dirsFrom s.shown s.above s.tree,
          ∃ ss, select false rest d = .ok ss ∧ Reaches d (Matches rest) ss := by
        intro d hmem
        obtain ⟨a, -, hat⟩ := at?_of_mem_dirsFrom hd hmem
        exact ih (hd.at? hat) h.tail
      obtain ⟨found, hfound, hsound, hcomplete⟩ := Outcome.exists_mapM hdirs
      refine ⟨distinct found.flatten, ?_, (reaches_deep hd h hsound hcomplete).distinct⟩
      rw [select]
      simp only [hfound, Outcome.ok_bind]
      rfl
    | up => exact absurd (h.down _ List.mem_cons_self) (by simp [descends])
    | exact name => exact select_exact h fun c hc => ih (hd.child? hc) h.tail
    | wild parts => exact select_wild hd h fun n c hc => ih (hd.child? hc) h.tail

/-- A place that is reached through any number of directories is given once. -/
theorem nodup_shown_of_deep {onlyDirs : Bool} (h : select onlyDirs (.deep :: rest) s = .ok ss) :
    (ss.map Spot.shown).Nodup := by
  rw [select] at h
  cases hfound : (dirsFrom s.shown s.above s.tree).mapM (select onlyDirs rest) with
  | error e =>
    simp only [hfound] at h
    cases h
  | ok found =>
    simp only [hfound] at h
    obtain rfl := Except.ok.inj h
    exact nodup_shown_distinct found.flatten

end Selecting

end Glob

end RouteBook
