import Mathlib.Algebra.GroupWithZero.Nat
import RouteBook.Proofs.Except
import RouteBook.Proofs.FileTree
import RouteBook.Publication

/-! What a single change does to the files: something is put into a directory, or directories are
made on the way to a path. -/
namespace RouteBook

namespace Path

@[simp] theorem parent_append (p : Path) (n : String) : (p.append [n]).parent = p := by
  simp [parent, append]

@[simp] theorem name_append (p : Path) (n : String) : (p.append [n]).name = n := by
  simp [name, append]

theorem append_parent {p : Path} (h : p.parts ≠ []) : p.parent.append [p.name] = p := by
  obtain ⟨init, last, hp⟩ := List.eq_nil_or_concat p.parts |>.resolve_left h
  cases p
  simp_all [append, parent, name]

theorem size_intercalate {parts : List String} (h : parts ≠ []) :
    ("/".intercalate parts).utf8ByteSize + 1 =
      (parts.map fun s => s.utf8ByteSize + 1).sum := by
  induction parts with
  | nil => exact absurd rfl h
  | cons s parts ih =>
    cases parts with
    | nil => simp
    | cons t parts =>
      have ht := ih (by simp)
      rw [String.intercalate_cons_cons, String.utf8ByteSize_append, String.utf8ByteSize_append,
        List.map_cons, List.sum_cons, ← ht]
      have hs : "/".utf8ByteSize = 1 := rfl
      omega

theorem size_toString {p : Path} (h : p.parts ≠ []) :
    p.toString.utf8ByteSize + 1 =
      p.root.utf8ByteSize + (p.parts.map fun s => s.utf8ByteSize + 1).sum := by
  have he : p.parts.isEmpty = false := by simpa using h
  rw [toString, he, Bool.and_false]
  change (p.root ++ "/".intercalate p.parts).utf8ByteSize + 1 = _
  rw [String.utf8ByteSize_append, Nat.add_assoc, size_intercalate h]

end Path

namespace FileSystem
variable {fs fs' : FileSystem} {p : Path} {here : List String} {n : String}

theorem check_iff : check p = .ok () ↔
    (∀ s ∈ p.parts, '\x00' ∉ s.toList) ∧ p.toString.utf8ByteSize ≤ maxPathBytes := by
  rw [check]
  by_cases hz : ∃ s ∈ p.parts, '\x00' ∈ s.toList
  · have hnot : ¬ ∀ s ∈ p.parts, '\x00' ∉ s.toList := by
      obtain ⟨s, hs, hm⟩ := hz
      exact fun h => h s hs hm
    simp [hz, hnot]
  · have hall : ∀ s ∈ p.parts, '\x00' ∉ s.toList := fun s hs hm => hz ⟨s, hs, hm⟩
    have hany : (p.parts.any fun s => s.toList.contains '\x00') = false := by simpa using hall
    by_cases hl : maxPathBytes < p.toString.utf8ByteSize
    · rw [hany, if_neg (by simp), if_pos hl]
      exact iff_of_false (by simp) fun h => by omega
    · rw [hany, if_neg (by simp), if_neg hl]
      exact iff_of_true rfl ⟨hall, by omega⟩

theorem resolve_append (hc : check (p.append [n]) = .ok ()) (hr : fs.resolve p = .ok here) :
    fs.resolve (p.append [n]) = fs.step here n := by
  rw [resolve_of_check hc]
  rw [resolve_of_check (check_of_resolve hr)] at hr
  change (p.parts ++ [n]).foldlM fs.step (fs.start p) = _
  rw [List.foldlM_append, hr]
  exact bind_pure (fs.step here n)

theorem find_eq (hr : fs.resolve p = .ok here) :
    fs.find p = (match fs.tree.at? here with
      | some t => .ok t
      | none => .error .missing) := by
  rw [find, hr]
  change (match fs.tree.at? here with | some t => _ | none => _) = _
  cases fs.tree.at? here <;> rfl

theorem find_error {e : FileError} (hr : fs.resolve p = .error e) : fs.find p = .error e := by
  rw [find, hr]
  rfl

theorem isDir_iff : fs.isDir p = true ↔
    ∃ here, fs.resolve p = .ok here ∧ fs.kind? here = some .dir := by
  cases hr : fs.resolve p with
  | error e => simp [isDir, find_error hr]
  | ok here =>
    simp only [isDir, find_eq hr, kind?, FileTree.kind?, Except.ok.injEq, exists_eq_left']
    cases fs.tree.at? here with
    | none => simp
    | some t => cases t <;> simp [FileTree.isDir, FileTree.kind]

theorem read_eq {data : List UInt8} (hr : fs.resolve p = .ok here)
    (hk : fs.kind? here = some (.file data)) : fs.read p = .ok data := by
  rw [read, find_eq hr]
  obtain ⟨t, ht, hkind⟩ := Option.map_eq_some_iff.mp hk
  rw [ht]
  cases t with
  | dir es => cases hkind
  | file d =>
    cases hkind
    rfl

theorem step_ne_isDirectory (here : List String) (n : String) :
    fs.step here n ≠ .error .isDirectory := by
  rw [step_eq]
  cases fs.kind? here with
  | none => simp
  | some k =>
    cases k with
    | file data => simp
    | dir =>
      simp only
      split
      · simp
      · split
        · simp
        · split <;> simp

theorem check_ne_isDirectory : check p ≠ .error .isDirectory := by
  rw [check]
  split
  · simp
  · split <;> simp

theorem resolve_ne_isDirectory : fs.resolve p ≠ .error .isDirectory := by
  cases hc : check p with
  | error e =>
    intro h
    rw [resolve, hc] at h
    cases h
    exact check_ne_isDirectory hc
  | ok u =>
    rw [resolve_of_check hc]
    generalize fs.start p = here
    induction p.parts generalizing here with
    | nil => exact fun h => by cases h
    | cons n parts ih =>
      rw [List.foldlM_cons]
      cases hs : fs.step here n with
      | ok mid => exact ih mid
      | error e => exact fun h => step_ne_isDirectory here n (hs.trans h)

theorem put_ne_isDirectory {v : FileTree} : fs.put p v ≠ .error .isDirectory := by
  intro h
  rw [put] at h
  cases hc : check p with
  | error e =>
    rw [hc] at h
    cases h
    exact check_ne_isDirectory hc
  | ok u =>
    cases hr : fs.resolve p.parent with
    | error e =>
      rw [hc, hr] at h
      cases h
      exact resolve_ne_isDirectory hr
    | ok here =>
      rw [hc, hr] at h
      simp only [Outcome.ok_bind] at h
      split at h
      · split at h <;> cases h
      · cases h

/-- Only a move says that something is a directory. -/
theorem makeDir_ne_isDirectory : fs.makeDir p ≠ .error .isDirectory := by
  rw [makeDir]
  cases hr : fs.resolve p with
  | error e =>
    rw [find_error hr]
    cases e with
    | missing => exact put_ne_isDirectory
    | isDirectory => exact absurd hr resolve_ne_isDirectory
    | _ => exact fun h => by cases h
  | ok here =>
    rw [find_eq hr]
    cases fs.tree.at? here with
    | none => exact put_ne_isDirectory
    | some t => exact fun h => by cases h

theorem put_eq_ok {v : FileTree} (h : fs.put (p.append [n]) v = .ok fs') :
    check (p.append [n]) = .ok () ∧ n.utf8ByteSize ≤ maxNameBytes ∧
      ∃ here, fs.resolve p = .ok here ∧ fs.kind? here = some .dir ∧
        fs' = { fs with tree := fs.tree.insert v (here ++ [n]) } := by
  rw [put, Path.parent_append, Path.name_append] at h
  cases hc : check (p.append [n]) with
  | error e => rw [hc] at h; cases h
  | ok u =>
    cases hr : fs.resolve p with
    | error e => rw [hc, hr] at h; cases h
    | ok here =>
      rw [hc, hr] at h
      simp only [Outcome.ok_bind] at h
      cases ht : fs.tree.at? here with
      | none => simp [ht] at h
      | some t =>
        cases t with
        | file data => simp [ht] at h
        | dir es =>
          simp only [ht] at h
          split at h
          · cases h
          · refine ⟨rfl, by omega, here, rfl, ?_, ?_⟩
            · rw [kind?, FileTree.kind?, ht]
              rfl
            · cases h
              rfl

theorem put_of_dir {v : FileTree} (hc : check (p.append [n]) = .ok ())
    (hn : n.utf8ByteSize ≤ maxNameBytes) (hr : fs.resolve p = .ok here)
    (hk : fs.kind? here = some .dir) :
    fs.put (p.append [n]) v = .ok { fs with tree := fs.tree.insert v (here ++ [n]) } := by
  obtain ⟨t, ht, hkind⟩ := Option.map_eq_some_iff.mp hk
  obtain ⟨es, rfl⟩ := FileTree.exists_entries_of_kind hkind
  rw [put, Path.parent_append, Path.name_append, hc, hr]
  simp only [Outcome.ok_bind, ht]
  rw [if_neg (by omega)]
  rfl

/-- One row of names has come to stand for something new. -/
structure Sets (fs fs' : FileSystem) (ns : List String) (k : Option Kind) : Prop where
  cwd : fs'.cwd = fs.cwd
  self : fs'.kind? ns = k
  other : ∀ ms, ms ≠ ns → fs'.kind? ms = fs.kind? ms

theorem sets_insert {k : Kind} {v : FileTree} (hd : fs.kind? here = some .dir)
    (hn : fs.kind? (here ++ [n]) ≠ some .dir) (hv : v.kind = k) (he : v.entries = []) :
    Sets fs { fs with tree := fs.tree.insert v (here ++ [n]) } (here ++ [n]) (some k) := by
  refine ⟨rfl, ?_, ?_⟩
  · rw [kind?, FileTree.kind?_insert hd, if_pos (List.prefix_refl _),
      List.drop_of_length_le (by simp), FileTree.kind?_nil, hv]
  · intro ms hne
    rw [kind?, FileTree.kind?_insert hd]
    split
    · next hp =>
      -- Below the new entry nothing is, and nothing was below what is no directory.
      obtain ⟨rest, rfl⟩ := hp
      cases rest with
      | nil => exact absurd (by simp) hne
      | cons m rest =>
        have hnew : v.kind? (m :: rest) = none := by
          rw [FileTree.kind?_cons, FileTree.child?, he]
          rfl
        have hold : fs.kind? (here ++ [n] ++ m :: rest) = none := by
          cases hk : fs.kind? (here ++ [n] ++ m :: rest) with
          | none => rfl
          | some l => exact absurd (FileTree.kind?_parent hk (by simp)) hn
        rw [hold, List.drop_left' (by simp), hnew]
    · rfl

/-- What is taken away is gone alone, unless it is a directory. -/
theorem sets_erase (hn : fs.kind? (here ++ [n]) ≠ some .dir) :
    Sets fs { fs with tree := fs.tree.erase (here ++ [n]) } (here ++ [n]) none := by
  refine ⟨rfl, ?_, ?_⟩
  · rw [kind?, FileTree.kind?_erase, if_pos (List.prefix_refl _)]
  · intro ms hne
    rw [kind?, FileTree.kind?_erase]
    split
    · next hp =>
      obtain ⟨rest, rfl⟩ := hp
      cases hk : fs.kind? (here ++ [n] ++ rest) with
      | none => rfl
      | some l => exact absurd (FileTree.kind?_parent hk (by rintro rfl; simp at hne)) hn
    · rfl

theorem Sets.keepsDirs {ns : List String} {k : Option Kind} (h : Sets fs fs' ns k)
    (hn : fs.kind? ns ≠ some .dir) : KeepsDirs fs fs' := by
  refine ⟨h.cwd, fun ms hd => ?_⟩
  rw [h.other ms (by rintro rfl; exact hn hd), hd]

/-- A directory is made where there was nothing, and the path leads to it. -/
theorem makeDir_eq_ok (h : fs.makeDir p = .ok fs') :
    ∃ here, fs.resolve p.parent = .ok here ∧ fs.kind? here = some .dir ∧ p.name ≠ ".." ∧
      fs.kind? (here ++ [p.name]) = none ∧ Sets fs fs' (here ++ [p.name]) (some .dir) ∧
      fs'.resolve p = .ok (here ++ [p.name]) := by
  rw [makeDir] at h
  cases hf : fs.find p with
  | ok t => rw [hf] at h; cases h
  | error e =>
    obtain rfl : e = .missing := by
      rw [hf] at h
      cases e <;> first | rfl | cases h
    rw [hf] at h
    change fs.put p (.dir []) = .ok fs' at h
    by_cases hp : p.parts = []
    · -- The start of a path is not there, and nothing can be put into it.
      have hparent : p.parent = p := by cases p; simp_all [Path.parent]
      rw [put, hparent] at h
      cases hr : fs.resolve p with
      | error e =>
        rw [hr] at h
        cases hc : check p <;> (rw [hc] at h; cases h)
      | ok here =>
        rw [find_eq hr] at hf
        rw [check_of_resolve hr, hr] at h
        simp only [Outcome.ok_bind] at h
        cases ht : fs.tree.at? here with
        | none => simp [ht] at h
        | some t => simp [ht] at hf
    · rw [← Path.append_parent hp] at h
      obtain ⟨hc, hl, here, hr, hd, rfl⟩ := put_eq_ok h
      have hstep := resolve_append hc hr
      rw [Path.append_parent hp] at hstep hc
      have hlong : ¬ maxNameBytes < p.name.utf8ByteSize := by omega
      have hname : p.name ≠ ".." := by
        intro hn
        have hup : fs.resolve p = .ok here.dropLast := by
          rw [hstep, step_eq, hd, hn]
          rfl
        obtain ⟨k, hk⟩ := FileTree.kind?_dropLast hd
        obtain ⟨t, ht, -⟩ := Option.map_eq_some_iff.mp hk
        rw [find_eq hup, ht] at hf
        cases hf
      have hfree : fs.kind? (here ++ [p.name]) = none := by
        cases hk : fs.kind? (here ++ [p.name]) with
        | none => rfl
        | some k =>
          have hthere : fs.resolve p = .ok (here ++ [p.name]) := by
            rw [hstep, step_eq, hd]
            simp [hname, hlong, hk]
          obtain ⟨t, ht, -⟩ := Option.map_eq_some_iff.mp hk
          rw [find_eq hthere, ht] at hf
          cases hf
      have hsets := sets_insert (n := p.name) (v := .dir []) hd (by simp [hfree]) rfl rfl
      have hkeep := hsets.keepsDirs (by simp [hfree])
      refine ⟨here, hr, hd, hname, hfree, hsets, ?_⟩
      have hgo := resolve_append (by rwa [Path.append_parent hp]) (hkeep.resolve hr hd)
      rw [Path.append_parent hp] at hgo
      rw [hgo, step_eq, hkeep.dirs here hd, hsets.self]
      simp [hname, hlong]

structure Grows (old new : List String → Option Kind) : Prop where
  kept : ∀ ns k, old ns = some k → new ns = some k
  fresh : ∀ ns k, old ns = none → new ns = some k → k = .dir

theorem Grows.refl (view : List String → Option Kind) : Grows view view :=
  ⟨fun _ _ h => h, fun _ _ h h' => by rw [h] at h'; cases h'⟩

theorem Grows.trans {old mid new : List String → Option Kind} (h : Grows old mid)
    (h' : Grows mid new) : Grows old new := by
  refine ⟨fun ns k hk => h'.kept ns k (h.kept ns k hk), ?_⟩
  intro ns k hn hk
  cases hm : mid ns with
  | none => exact h'.fresh ns k hm hk
  | some l =>
    have hl := h'.kept ns l hm
    rw [hk] at hl
    cases hl
    exact h.fresh ns k hn hm

def data? (fs : FileSystem) (ns : List String) : Option (List UInt8) :=
  match fs.kind? ns with
  | some (.file data) => some data
  | _ => none

theorem Grows.data? {ns : List String} (h : Grows fs.kind? fs'.kind?) :
    fs'.data? ns = fs.data? ns := by
  rw [FileSystem.data?, FileSystem.data?]
  cases hk : fs.kind? ns with
  | some k => rw [h.kept ns k hk]
  | none =>
    cases hk' : fs'.kind? ns with
    | none => rfl
    | some k => rw [h.fresh ns k hk hk']

theorem Sets.grows {ns : List String} (h : Sets fs fs' ns (some .dir)) (hn : fs.kind? ns = none) :
    Grows fs.kind? fs'.kind? := by
  refine ⟨?_, ?_⟩
  · intro ms k hk
    rw [h.other ms (by rintro rfl; rw [hn] at hk; cases hk), hk]
  · intro ms k hm hk
    by_cases he : ms = ns
    · rw [he, h.self] at hk
      exact (Option.some.inj hk).symm
    · rw [h.other ms he, hm] at hk
      cases hk

/-- A path, or one of those above it, leads to a place. -/
def OnWay (fs : FileSystem) (p : Path) (ns : List String) : Prop :=
  ∃ parts, parts <+: p.parts ∧ fs.resolve { p with parts } = .ok ns

theorem onWay_of_resolve {ns : List String} (h : fs.resolve p = .ok ns) : OnWay fs p ns :=
  ⟨p.parts, List.prefix_refl _, h⟩

theorem OnWay.of_parent {ns : List String} (h : OnWay fs p.parent ns) : OnWay fs p ns := by
  obtain ⟨parts, hp, hr⟩ := h
  exact ⟨parts, hp.trans (List.dropLast_prefix p.parts), hr⟩

theorem OnWay.keep {ns : List String} (h : OnWay fs p ns) (hk : KeepsDirs fs fs')
    (hd : fs.kind? ns = some .dir) : OnWay fs' p ns := by
  obtain ⟨parts, hp, hr⟩ := h
  exact ⟨parts, hp, hk.resolve hr hd⟩

end FileSystem

namespace FileAction
open FileSystem
variable {fs fs' : FileSystem} {p : Path} {above : List String} {α β : Type}

theorem bind_ok {act : FileAction α} {next : α → FileAction β} {a : α}
    (h : act fs = (.ok a, fs')) : (act >>= next) fs = next a fs' := by
  change (act fs >>= fun r => ExceptT.bindCont next r.1 r.2) = _
  rw [h]
  rfl

theorem bind_error {act : FileAction α} {next : α → FileAction β} {e : FileError}
    (h : act fs = (.error e, fs')) : (act >>= next) fs = (.error e, fs') := by
  change (act fs >>= fun r => ExceptT.bindCont next r.1 r.2) = _
  rw [h]
  rfl

theorem makeDir_made (h : fs.makeDir p = .ok fs') : makeDir p fs = (.ok (), fs') := by
  rw [makeDir, h]

theorem makeDir_refused {e : FileError} (h : fs.makeDir p = .error e) :
    makeDir p fs = (if fs.isDir p then .ok () else .error e, fs) := by
  rw [makeDir, h]

theorem grows_makeDir (p : Path) (fs : FileSystem) : Grows fs.kind? (makeDir p fs).2.kind? := by
  cases h : fs.makeDir p with
  | error e =>
    rw [makeDir_refused h]
    exact Grows.refl fs.kind?
  | ok fs' =>
    obtain ⟨here, -, -, -, hn, hs, -⟩ := makeDir_eq_ok h
    rw [makeDir_made h]
    exact hs.grows hn

theorem makeDirsWithin_missing (depth : Nat) (h : fs.makeDir p = .error .missing) :
    makeDirsWithin (depth + 1) p fs =
      (makeDirsWithin depth p.parent >>= fun _ => makeDir p) fs := by
  simp only [makeDirsWithin, h]

theorem makeDirsWithin_other (depth : Nat) (h : fs.makeDir p ≠ .error .missing) :
    makeDirsWithin (depth + 1) p fs = makeDir p fs := by
  cases hm : fs.makeDir p with
  | ok fs' => simp only [makeDirsWithin, hm]
  | error e =>
    cases e with
    | missing => exact absurd hm h
    | _ => simp only [makeDirsWithin, hm]

theorem grows_makeDirsWithin (depth : Nat) (p : Path) (fs : FileSystem) :
    Grows fs.kind? (makeDirsWithin depth p fs).2.kind? := by
  induction depth generalizing p fs with
  | zero => exact grows_makeDir p fs
  | succ depth ih =>
    by_cases h : fs.makeDir p = .error .missing
    · rw [makeDirsWithin_missing depth h]
      cases hr : makeDirsWithin depth p.parent fs with
      | mk r fs' =>
        have hgrow := ih p.parent fs
        rw [hr] at hgrow
        cases r with
        | error e => rwa [bind_error hr]
        | ok u =>
          rw [bind_ok hr]
          exact hgrow.trans (grows_makeDir p fs')
    · rw [makeDirsWithin_other depth h]
      exact grows_makeDir p fs

theorem grows_makeDirs (p : Path) (fs : FileSystem) : Grows fs.kind? (makeDirs p fs).2.kind? :=
  grows_makeDirsWithin _ p fs

structure Paves (p : Path) (fs fs' : FileSystem) : Prop where
  keeps : KeepsDirs fs fs'
  fresh : ∀ ns, fs.kind? ns = none → fs'.kind? ns = some .dir → OnWay fs' p ns

theorem paves_makeDir (p : Path) (fs : FileSystem) : Paves p fs (makeDir p fs).2 := by
  cases h : fs.makeDir p with
  | error e =>
    rw [makeDir_refused h]
    refine ⟨KeepsDirs.refl fs, fun ns hn hd => ?_⟩
    rw [hn] at hd
    cases hd
  | ok fs' =>
    obtain ⟨here, -, -, -, hfree, hs, hr⟩ := makeDir_eq_ok h
    rw [makeDir_made h]
    refine ⟨hs.keepsDirs (by simp [hfree]), fun ns hn hd => ?_⟩
    by_cases he : ns = here ++ [p.name]
    · exact he ▸ onWay_of_resolve hr
    · rw [hs.other ns he, hn] at hd
      cases hd

theorem paves_makeDirsWithin (depth : Nat) (p : Path) (fs : FileSystem) :
    Paves p fs (makeDirsWithin depth p fs).2 := by
  induction depth generalizing p fs with
  | zero => exact paves_makeDir p fs
  | succ depth ih =>
    by_cases h : fs.makeDir p = .error .missing
    · rw [makeDirsWithin_missing depth h]
      have hgrow := grows_makeDirsWithin depth p.parent fs
      have habove := ih p.parent fs
      cases hr : makeDirsWithin depth p.parent fs with
      | mk r fs₁ =>
        rw [hr] at hgrow habove
        cases r with
        | error e =>
          rw [bind_error hr]
          exact ⟨habove.keeps, fun ns hn hd => (habove.fresh ns hn hd).of_parent⟩
        | ok u =>
          rw [bind_ok hr]
          have hlast := paves_makeDir p fs₁
          refine ⟨habove.keeps.trans hlast.keeps, fun ns hn hd => ?_⟩
          cases hk : fs₁.kind? ns with
          | none => exact hlast.fresh ns hk hd
          | some k =>
            obtain rfl := hgrow.fresh ns k hn hk
            exact (habove.fresh ns hn hk).of_parent.keep hlast.keeps hk
    · rw [makeDirsWithin_other depth h]
      exact paves_makeDir p fs

theorem paves_makeDirs (p : Path) (fs : FileSystem) : Paves p fs (makeDirs p fs).2 :=
  paves_makeDirsWithin _ p fs

theorem makeDir_fault (p : Path) (fs : FileSystem) : (makeDir p fs).1 ≠ .error .isDirectory := by
  cases h : fs.makeDir p with
  | ok fs' => simp [makeDir_made h]
  | error e =>
    rw [makeDir_refused h]
    split
    · simp
    · intro he
      cases he
      exact makeDir_ne_isDirectory h

theorem makeDirsWithin_fault (depth : Nat) (p : Path) (fs : FileSystem) :
    (makeDirsWithin depth p fs).1 ≠ .error .isDirectory := by
  induction depth generalizing p fs with
  | zero => exact makeDir_fault p fs
  | succ depth ih =>
    by_cases h : fs.makeDir p = .error .missing
    · rw [makeDirsWithin_missing depth h]
      have hfault := ih p.parent fs
      cases hr : makeDirsWithin depth p.parent fs with
      | mk r fs' =>
        rw [hr] at hfault
        cases r with
        | error e => rwa [bind_error hr]
        | ok u =>
          rw [bind_ok hr]
          exact makeDir_fault p fs'
    · rw [makeDirsWithin_other depth h]
      exact makeDir_fault p fs

theorem makeDirs_fault (p : Path) (fs : FileSystem) : (makeDirs p fs).1 ≠ .error .isDirectory :=
  makeDirsWithin_fault _ p fs

theorem makeDir_ne_missing (hp : p.parts ≠ []) (hr : fs.resolve p.parent = .ok above)
    (hd : fs.kind? above = some .dir) : fs.makeDir p ≠ .error .missing := by
  intro h
  rw [FileSystem.makeDir] at h
  cases hf : fs.find p with
  | ok t => rw [hf] at h; cases h
  | error e =>
    rw [hf] at h
    cases e with
    | missing =>
      change fs.put p (.dir []) = .error .missing at h
      cases hc : check p with
      | error e =>
        have hfind : fs.find p = .error e := find_error (by rw [resolve, hc]; rfl)
        rw [hfind] at hf
        rw [put, hc] at h
        rw [check] at hc
        split at hc
        · cases hc; cases h
        · split at hc <;> cases hc
          cases h
      | ok u =>
        have happ : p.parent.append [p.name] = p := Path.append_parent hp
        have hstep := resolve_append (by rwa [happ]) hr
        rw [happ, step_eq, hd] at hstep
        by_cases hl : maxNameBytes < p.name.utf8ByteSize
        · have hup : p.name ≠ ".." := by
            intro hn
            rw [hn] at hl
            exact absurd hl (by decide)
          rw [find_error (by simpa [hup, hl] using hstep)] at hf
          cases hf
        · have hput := put_of_dir (v := .dir []) (by rwa [happ]) (by omega) hr hd
          rw [happ, h] at hput
          cases hput
    | _ => cases h

/-- Where the directory above is there, at most one directory is made. -/
theorem makeDirs_below (hr : fs.resolve p.parent = .ok above) (hd : fs.kind? above = some .dir) :
    (∃ e, makeDirs p fs = (.error e, fs)) ∨
    ∃ fs' here, makeDirs p fs = (.ok (), fs') ∧ fs'.resolve p = .ok here ∧
      fs'.kind? here = some .dir ∧
      (fs' = fs ∨ here = above ++ [p.name] ∧ fs.kind? here = none ∧
        Sets fs fs' here (some .dir)) := by
  have hone : makeDirs p fs = makeDir p fs := by
    rw [makeDirs]
    cases hl : p.parts.length with
    | zero => rfl
    | succ depth =>
      have hne := makeDir_ne_missing (by rintro h; simp [h] at hl) hr hd
      exact makeDirsWithin_other depth hne
  rw [hone]
  cases h : fs.makeDir p with
  | error e =>
    rw [makeDir_refused h]
    cases hdir : fs.isDir p with
    | false => exact .inl ⟨e, rfl⟩
    | true =>
      obtain ⟨here, hres, hk⟩ := isDir_iff.mp hdir
      exact .inr ⟨fs, here, rfl, hres, hk, .inl rfl⟩
  | ok fs' =>
    obtain ⟨here, hpar, -, -, hn, hs, hres⟩ := makeDir_eq_ok h
    obtain rfl : here = above := by
      rw [hr] at hpar
      exact (Except.ok.inj hpar).symm
    rw [makeDir_made h]
    exact .inr ⟨fs', _, rfl, hres, hs.self, .inr ⟨rfl, hn, hs⟩⟩

end FileAction

end RouteBook
