import Mathlib.Data.List.Infix
import RouteBook.FileTree
import RouteBook.Proofs.Pairs

/-! A file tree by what stands at each row of names: nothing, a directory, or a file with its data.
Where a path leads to, and what a change does, can be told from this view alone. -/
namespace RouteBook

inductive Kind where
  | dir
  | file (data : List UInt8)
deriving DecidableEq

namespace FileTree
variable {t v : FileTree} {n name : String} {here ns : List String}

def kind : FileTree → Kind
  | file data => .file data
  | dir _ => .dir

def kind? (t : FileTree) (ns : List String) : Option Kind := (t.at? ns).map kind

@[simp] theorem kind?_nil (t : FileTree) : t.kind? [] = some t.kind := rfl

theorem kind?_cons (t : FileTree) (n : String) (ns : List String) :
    t.kind? (n :: ns) = (t.child? n).bind (·.kind? ns) := by
  rw [kind?, at?]
  cases t.child? n <;> rfl

theorem kind?_append (t : FileTree) (ns ms : List String) :
    t.kind? (ns ++ ms) = (t.at? ns).bind (·.kind? ms) := by
  induction ns generalizing t with
  | nil => rfl
  | cons n ns ih =>
    rw [List.cons_append, kind?_cons, at?]
    cases t.child? n with
    | none => rfl
    | some c => exact ih c

theorem child?_file (data : List UInt8) (n : String) : (file data).child? n = none := rfl

theorem exists_entries_of_kind (h : t.kind = .dir) : ∃ es, t = .dir es := by
  cases t with
  | file data => cases h
  | dir es => exact ⟨es, rfl⟩

theorem kind?_of_prefix {ms : List String} (h : t.kind? ns = none) (hp : ns <+: ms) :
    t.kind? ms = none := by
  obtain ⟨rest, rfl⟩ := hp
  rw [kind?_append, Option.map_eq_none_iff.mp h]
  rfl

theorem kind?_parent {ms : List String} {k : Kind} (h : t.kind? (ns ++ ms) = some k)
    (hm : ms ≠ []) : t.kind? ns = some .dir := by
  rw [kind?_append] at h
  obtain ⟨c, hc, hk⟩ := Option.bind_eq_some_iff.mp h
  cases ms with
  | nil => exact absurd rfl hm
  | cons m ms =>
    rw [kind?_cons] at hk
    cases c with
    | file data => cases hk
    | dir es => rw [kind?, hc]; rfl

theorem kind?_dropLast {k : Kind} (h : t.kind? ns = some k) :
    ∃ l, t.kind? ns.dropLast = some l := by
  induction ns using List.reverseRecOn with
  | nil => exact ⟨k, h⟩
  | append_singleton ns n _ =>
    rw [List.dropLast_concat]
    exact ⟨_, kind?_parent h (by simp)⟩

theorem insert_cons (t v : FileTree) (n : String) (ns : List String) :
    t.insert v (n :: ns) =
      .dir (Pairs.put n (((t.child? n).getD (.dir [])).insert v ns) t.entries) := by
  rw [insert]

theorem kind?_put (es : List (String × FileTree)) (m : String) :
    (FileTree.dir (Pairs.put n v es)).kind? (m :: ns) =
      if m = n then v.kind? ns else (FileTree.dir es).kind? (m :: ns) := by
  rw [kind?_cons, child?, entries]
  by_cases hm : m = n
  · rw [if_pos hm, hm, Pairs.get?_put_self]
    rfl
  · rw [if_neg hm, Pairs.get?_put_of_ne hm, kind?_cons]
    rfl

/-- What is put into a directory stands there, and all else is as before. -/
theorem kind?_insert (h : t.kind? here = some .dir) (v : FileTree) (name : String)
    (ns : List String) : (t.insert v (here ++ [name])).kind? ns =
      if here ++ [name] <+: ns then v.kind? (ns.drop (here.length + 1)) else t.kind? ns := by
  induction here generalizing t ns with
  | nil =>
    obtain ⟨es, rfl⟩ := exists_entries_of_kind (Option.some.inj h)
    rw [List.nil_append, insert_cons]
    cases ns with
    | nil => simp [kind]
    | cons m ms =>
      rw [entries, kind?_put]
      by_cases hm : m = name
      · simp [insert, hm]
      · simp [hm, Ne.symm hm]
  | cons n here ih =>
    rw [kind?_cons] at h
    obtain ⟨c, hc, hk⟩ := Option.bind_eq_some_iff.mp h
    cases t with
    | file data => cases hc
    | dir es =>
      rw [List.cons_append, insert_cons, hc, entries, Option.getD_some]
      cases ns with
      | nil => simp [kind]
      | cons m ms =>
        rw [kind?_put]
        by_cases hm : m = n
        · subst hm
          rw [if_pos rfl, ih hk ms, kind?_cons, hc]
          simp [List.cons_prefix_cons]
        · rw [if_neg hm, if_neg (by simp [List.cons_prefix_cons, Ne.symm hm])]

/-- What is taken away is gone with all below it, and nothing else is. -/
theorem kind?_erase (t : FileTree) (here : List String) (name : String) (ns : List String) :
    (t.erase (here ++ [name])).kind? ns =
      if here ++ [name] <+: ns then none else t.kind? ns := by
  induction here generalizing t ns with
  | nil =>
    cases t with
    | file data =>
      cases ns with
      | nil => simp [erase]
      | cons m ms => simp [erase, kind?_cons, child?_file]
    | dir es =>
      cases ns with
      | nil => simp [erase, kind]
      | cons m ms =>
        rw [List.nil_append, erase, kind?_cons, child?, entries, kind?_cons]
        by_cases hm : m = name
        · simp [hm, Pairs.get?_erase_self]
        · simp [Ne.symm hm, Pairs.get?_erase_of_ne hm, child?, entries]
  | cons n here ih =>
    cases t with
    | file data =>
      have hfile : (file data).erase (n :: here ++ [name]) = file data := by
        cases here <;> simp [erase]
      rw [hfile]
      cases ns with
      | nil => simp
      | cons m ms => simp [kind?_cons, child?_file]
    | dir es =>
      cases hc : (dir es).child? n with
      | none =>
        have hnone : (dir es).erase (n :: here ++ [name]) = dir es := by
          cases here <;> simp [erase, hc]
        rw [hnone]
        cases ns with
        | nil => simp
        | cons m ms =>
          by_cases hm : m = n
          · simp [kind?_cons, hm, hc]
          · simp [List.cons_prefix_cons, Ne.symm hm]
      | some c =>
        have hsome : (dir es).erase (n :: here ++ [name]) =
            .dir (Pairs.put n (c.erase (here ++ [name])) es) := by
          cases here <;> simp [erase, hc]
        rw [hsome]
        cases ns with
        | nil => simp [kind]
        | cons m ms =>
          rw [kind?_put]
          by_cases hm : m = n
          · subst hm
            rw [if_pos rfl, ih, kind?_cons, hc]
            simp [List.cons_prefix_cons]
          · rw [if_neg hm, if_neg (by simp [List.cons_prefix_cons, Ne.symm hm])]

end FileTree

namespace FileSystem
variable {fs fs' : FileSystem} {p : Path} {here ns : List String} {name : String}

def kind? (fs : FileSystem) (ns : List String) : Option Kind := fs.tree.kind? ns

theorem kind?_below {ms : List String} (h : fs.kind? ns = none) (hp : ns <+: ms) :
    fs.kind? ms = none :=
  FileTree.kind?_of_prefix h hp

theorem step_eq (fs : FileSystem) (here : List String) (name : String) :
    fs.step here name = match fs.kind? here with
      | some .dir =>
        if name == ".." then .ok here.dropLast
        else if maxNameBytes < name.utf8ByteSize then .error .nameTooLong
        else if (fs.kind? (here ++ [name])).isSome then .ok (here ++ [name])
        else .error .missing
      | some (.file _) => .error .notDirectory
      | none => .error .missing := by
  rw [step, kind?, kind?, FileTree.kind?_append, FileTree.kind?]
  cases fs.tree.at? here with
  | none => rfl
  | some t =>
    cases t with
    | file data => rfl
    | dir es =>
      have hc : ((FileTree.dir es).kind? [name]).isSome = Pairs.contains name es := by
        rw [FileTree.kind?_cons, FileTree.child?, FileTree.entries, Pairs.contains]
        cases Pairs.get? name es <;> rfl
      simp only [Option.map_some, FileTree.kind, Option.bind_some, hc]

def start (fs : FileSystem) (p : Path) : List String := if p.root == "" then fs.cwd else []

theorem resolve_of_check (h : check p = .ok ()) :
    fs.resolve p = p.parts.foldlM fs.step (fs.start p) := by
  rw [resolve, h]
  rfl

theorem check_of_resolve (h : fs.resolve p = .ok here) : check p = .ok () := by
  rw [resolve] at h
  cases hc : check p with
  | ok u => rfl
  | error e => rw [hc] at h; cases h

theorem dir_of_step {next : List String} (h : fs.step here name = .ok next) :
    fs.kind? here = some .dir := by
  rw [step_eq] at h
  cases hk : fs.kind? here with
  | none => simp [hk] at h
  | some k =>
    cases k with
    | dir => rfl
    | file data => simp [hk] at h

theorem dir_of_steps {parts here next : List String} (h : parts.foldlM fs.step here = .ok next)
    (hn : fs.kind? next = some .dir) : fs.kind? here = some .dir := by
  cases parts with
  | nil =>
    cases h
    exact hn
  | cons n parts =>
    rw [List.foldlM_cons] at h
    cases hs : fs.step here n with
    | error e => rw [hs] at h; cases h
    | ok mid => exact dir_of_step hs

structure KeepsDirs (fs fs' : FileSystem) : Prop where
  cwd : fs'.cwd = fs.cwd
  dirs : ∀ ns, fs.kind? ns = some .dir → fs'.kind? ns = some .dir

theorem KeepsDirs.refl (fs : FileSystem) : KeepsDirs fs fs := ⟨rfl, fun _ h => h⟩

theorem KeepsDirs.trans {fs₁ fs₂ fs₃ : FileSystem} (h : KeepsDirs fs₁ fs₂)
    (h' : KeepsDirs fs₂ fs₃) : KeepsDirs fs₁ fs₃ :=
  ⟨h'.cwd.trans h.cwd, fun ns hd => h'.dirs ns (h.dirs ns hd)⟩

theorem KeepsDirs.step (h : KeepsDirs fs fs') {next : List String}
    (hs : fs.step here name = .ok next) (hn : fs.kind? next = some .dir) :
    fs'.step here name = .ok next := by
  have hdir := dir_of_step hs
  rw [step_eq, hdir] at hs
  rw [step_eq, h.dirs here hdir]
  by_cases hd : name = ".."
  · simpa [hd] using hs
  · by_cases hl : maxNameBytes < name.utf8ByteSize
    · simp [hd, hl] at hs
    · by_cases hm : (fs.kind? (here ++ [name])).isSome
      · obtain rfl : here ++ [name] = next := by simpa [hd, hl, hm] using hs
        simp [hd, hl, h.dirs _ hn]
      · simp [hd, hl, hm] at hs

theorem KeepsDirs.steps (h : KeepsDirs fs fs') {parts next : List String}
    (hs : parts.foldlM fs.step here = .ok next) (hn : fs.kind? next = some .dir) :
    parts.foldlM fs'.step here = .ok next := by
  induction parts generalizing here with
  | nil => exact hs
  | cons n parts ih =>
    rw [List.foldlM_cons] at hs ⊢
    cases hmid : fs.step here n with
    | error e => rw [hmid] at hs; cases hs
    | ok mid =>
      rw [hmid] at hs
      rw [h.step hmid (dir_of_steps hs hn)]
      exact ih hs

theorem KeepsDirs.resolve (h : KeepsDirs fs fs') (hr : fs.resolve p = .ok here)
    (hd : fs.kind? here = some .dir) : fs'.resolve p = .ok here := by
  have hc := check_of_resolve hr
  have hstart : fs'.start p = fs.start p := by rw [start, start, h.cwd]
  rw [resolve_of_check hc] at hr ⊢
  rw [hstart]
  exact h.steps hr hd

end FileSystem

end RouteBook
