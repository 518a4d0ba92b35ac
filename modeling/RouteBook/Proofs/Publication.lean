import Mathlib.Data.List.Perm.Subperm
import RouteBook.Proofs.FileAction

/-! What becomes of the files when documents are put into a directory: nothing is touched before the
first move, a move is refused only where a directory has the document's name, and the directory
beside the output is gone in the end. -/
namespace RouteBook.Publication
open FileSystem FileAction
variable {fs fs' : FileSystem} {output staging : Path} {above here stage ns : List String}
  {texts done : Texts} {n : String}

def dataOf (text : String) : List UInt8 := text.toUTF8.toList

structure Proper (texts : Texts) : Prop where
  nodup : (Pairs.keys texts).Nodup
  undotted : ∀ t ∈ texts, t.1.toList.head? ≠ some '.'

theorem stagingName_injective (output : Path) : Function.Injective (stagingName output) := by
  intro m n h
  have hl : ("." ++ output.name ++ "-" ++ Date.padded 8 m).toList =
      ("." ++ output.name ++ "-" ++ Date.padded 8 n).toList := congrArg String.toList h
  simp only [String.toList_append, List.append_cancel_left_eq, Date.padded,
    String.toList_ofList] at hl
  have hv := congrArg (Nat.ofDigitChars 10 · 0) hl
  simpa [Nat.ofDigitChars_append, Nat.ofDigitChars_replicate_zero,
    Nat.ofDigitChars_ten_toDigits] using hv

/-- Among one name more than there are taken names one is free. -/
theorem find_stagingName (output : Path) (taken : List String) :
    ∃ k, (((List.range (taken.length + 1)).map (stagingName output)).find?
      (!taken.contains ·)).getD "" = stagingName output k := by
  cases hf : ((List.range (taken.length + 1)).map (stagingName output)).find?
      (!taken.contains ·) with
  | some name =>
    obtain ⟨k, -, rfl⟩ := List.mem_map.mp (List.mem_of_find?_eq_some hf)
    exact ⟨k, rfl⟩
  | none =>
    have hsub : (List.range (taken.length + 1)).map (stagingName output) ⊆ taken := by
      intro name hn
      simpa using List.find?_eq_none.mp hf name hn
    have hnodup := (List.nodup_range (n := taken.length + 1)).map (stagingName_injective output)
    have hle := (hnodup.subperm hsub).length_le
    rw [List.length_map, List.length_range] at hle
    omega

theorem exists_stagingName (fs : FileSystem) (output : Path) :
    ∃ k, stagingPath fs output = output.parent.append [stagingName output k] := by
  unfold stagingPath
  obtain ⟨k, hk⟩ := find_stagingName output _
  exact ⟨k, by rw [← hk]⟩

theorem head_stagingName (output : Path) (k : Nat) :
    (stagingName output k).toList.head? = some '.' := by
  simp [stagingName]

theorem stagingName_ne_name (output : Path) (k : Nat) : stagingName output k ≠ output.name := by
  intro h
  have hl := congrArg String.length h
  simp only [stagingName, String.length_append] at hl
  have hdot : ".".length = 1 := rfl
  omega

theorem stagingName_ne_up (output : Path) (k : Nat) : stagingName output k ≠ ".." := by
  intro h
  have hmem : '-' ∈ (stagingName output k).toList := by simp [stagingName]
  rw [h] at hmem
  revert hmem
  decide

/-- What a document's path in the directory beside the output may be, its path in the output
may be. -/
theorem check_output {k : Nat}
    (h : check ((output.parent.append [stagingName output k]).append [n]) = .ok ()) :
    check (output.append [n]) = .ok () := by
  rw [check_iff] at h ⊢
  obtain ⟨hz, hs⟩ := h
  have hsize := Path.size_toString (p := (output.parent.append [stagingName output k]).append [n])
    (by simp [Path.append])
  have htarget := Path.size_toString (p := output.append [n]) (by simp [Path.append])
  by_cases hp : output.parts = []
  · refine ⟨?_, ?_⟩
    · intro s hs'
      refine hz s ?_
      simp only [Path.append, hp, Path.parent, List.nil_append] at hs' ⊢
      simp_all
    · simp only [Path.append, Path.parent, hp, List.dropLast_nil, List.nil_append,
        List.cons_append, List.map_cons, List.map_nil, List.sum_cons,
        List.sum_nil] at hsize htarget hs ⊢
      omega
  · obtain ⟨init, last, hparts⟩ := List.eq_nil_or_concat output.parts |>.resolve_left hp
    have hname : output.name = last := by simp [Path.name, hparts]
    have hlong : last.utf8ByteSize ≤ (stagingName output k).utf8ByteSize := by
      simp only [stagingName, String.utf8ByteSize_append, hname]
      omega
    refine ⟨?_, ?_⟩
    · intro s hs'
      simp only [Path.append, Path.parent, hparts, List.concat_eq_append, List.dropLast_concat,
        List.mem_append, List.mem_singleton] at hs' hz
      rcases hs' with (hs' | rfl) | rfl
      · exact hz s (.inl (.inl hs'))
      · have hst := hz _ (.inl (.inr rfl))
        simp only [stagingName, String.toList_append, List.mem_append, not_or, hname] at hst
        exact hst.1.1.2
      · exact hz s (.inr rfl)
    · simp only [Path.append, Path.parent, hparts, List.concat_eq_append, List.dropLast_concat,
        List.map_append, List.sum_append, List.map_cons, List.map_nil, List.sum_cons,
        List.sum_nil] at hsize htarget hs ⊢
      omega

def outside (stage : List String) (fs : FileSystem) (ns : List String) : Option Kind :=
  if stage <+: ns then none else fs.kind? ns

structure Staged (fs : FileSystem) (staging : Path) (stage : List String) (texts : Texts) :
    Prop where
  path : fs.resolve staging = .ok stage
  dir : fs.kind? stage = some .dir
  flat : ∀ n, fs.kind? (stage ++ [n]) ≠ some .dir
  files : ∀ t ∈ texts, fs.kind? (stage ++ [t.1]) = some (.file (dataOf t.2))

theorem Staged.resolve (h : Staged fs staging stage texts) {t : String × String} (ht : t ∈ texts)
    (hc : check (staging.append [t.1]) = .ok ()) (hl : t.1.utf8ByteSize ≤ maxNameBytes)
    (hn : t.1 ≠ "..") : fs.resolve (staging.append [t.1]) = .ok (stage ++ [t.1]) := by
  have hlong : ¬ maxNameBytes < t.1.utf8ByteSize := by omega
  rw [resolve_append hc h.path, step_eq, h.dir, h.files t ht]
  simp [hn, hlong]

theorem outside_of_sets {k : Option Kind} (h : Sets fs fs' (stage ++ ns) k) :
    outside stage fs' = outside stage fs := by
  funext ms
  rw [outside, outside]
  split
  · rfl
  · next hp => exact h.other ms (by rintro rfl; exact hp (List.prefix_append _ _))

theorem ne_of_undotted {t : String × String} (h : t.1.toList.head? ≠ some '.') : t.1 ≠ ".." := by
  intro he
  rw [he] at h
  exact h (by decide)

theorem Staged.write (h : Staged fs staging stage done) {t : String × String}
    (hnew : ∀ u ∈ done, u.1 ≠ t.1)
    (hput : fs.put (staging.append [t.1]) (.file (dataOf t.2)) = .ok fs') :
    Staged fs' staging stage (done ++ [t]) ∧ outside stage fs' = outside stage fs ∧
      KeepsDirs fs fs' ∧ check (staging.append [t.1]) = .ok () ∧
      t.1.utf8ByteSize ≤ maxNameBytes := by
  obtain ⟨hc, hl, here, hr, -, rfl⟩ := put_eq_ok hput
  obtain rfl : stage = here := by
    rw [h.path] at hr
    exact Except.ok.inj hr
  have hsets := sets_insert (n := t.1) (v := .file (dataOf t.2)) h.dir (h.flat t.1) rfl rfl
  have hkeep := hsets.keepsDirs (h.flat t.1)
  refine ⟨⟨hkeep.resolve h.path h.dir, hkeep.dirs _ h.dir, ?_, ?_⟩, outside_of_sets hsets, hkeep,
    hc, hl⟩
  · intro m
    by_cases hm : m = t.1
    · rw [hm, hsets.self]
      exact fun hk => by cases hk
    · rw [hsets.other _ (by simpa using hm)]
      exact h.flat m
  · intro u hu
    rcases List.mem_append.mp hu with hu | hu
    · rw [hsets.other _ (by simpa using hnew u hu)]
      exact h.files u hu
    · rw [List.mem_singleton.mp hu, hsets.self]
      rfl

theorem change_ok {f : FileSystem → Except FileError FileSystem} (h : f fs = .ok fs') :
    change f fs = (.ok (), fs') := by
  rw [change, h]

theorem change_error {f : FileSystem → Except FileError FileSystem} {e : FileError}
    (h : f fs = .error e) : change f fs = (.error e, fs) := by
  rw [change, h]

def Passable (staging : Path) (texts : Texts) : Prop :=
  ∀ t ∈ texts, check (staging.append [t.1]) = .ok () ∧ t.1.utf8ByteSize ≤ maxNameBytes

/-- Writing beside the output changes nothing elsewhere, whatever becomes of it. -/
theorem write_spec (h : Staged fs staging stage done) (hn : (Pairs.keys (done ++ texts)).Nodup) :
    ∃ r fs', write texts staging fs = (r, fs') ∧ outside stage fs' = outside stage fs ∧
      KeepsDirs fs fs' ∧ r ≠ .error .isDirectory ∧
      (r = .ok () → Staged fs' staging stage (done ++ texts) ∧ Passable staging texts) := by
  induction texts generalizing fs done with
  | nil =>
    exact ⟨.ok (), fs, rfl, rfl, KeepsDirs.refl fs, by simp,
      fun _ => ⟨by simpa using h, by simp [Passable]⟩⟩
  | cons t texts ih =>
    have hnew : ∀ u ∈ done, u.1 ≠ t.1 := by
      intro u hu he
      rw [Pairs.keys, List.map_append, List.nodup_append] at hn
      exact hn.2.2 u.1 (List.mem_map_of_mem hu) t.1 (by simp) he
    have hcons : write (t :: texts) staging =
        (change (·.put (staging.append [t.1]) (.file (dataOf t.2))) >>= fun _ =>
          write texts staging) := rfl
    rw [hcons]
    cases hput : fs.put (staging.append [t.1]) (.file (dataOf t.2)) with
    | error e =>
      refine ⟨_, fs, bind_error (change_error hput), rfl, KeepsDirs.refl fs, ?_, by simp⟩
      intro he
      cases he
      exact put_ne_isDirectory hput
    | ok fs₁ =>
      obtain ⟨hstaged, hout, hkeep, hc, hl⟩ := h.write hnew hput
      obtain ⟨r, fs', hrun, hout', hkeep', hfault, hall⟩ := ih hstaged (by simpa using hn)
      refine ⟨r, fs', (bind_ok (change_ok hput)).trans hrun, hout'.trans hout,
        hkeep.trans hkeep', hfault, ?_⟩
      intro hr
      obtain ⟨hs, hp⟩ := hall hr
      refine ⟨by simpa using hs, ?_⟩
      intro u hu
      rcases List.mem_cons.mp hu with rfl | hu
      · exact ⟨hc, hl⟩
      · exact hp u hu

/-- Some documents have come to stand in a directory, and nothing else is new. -/
structure Moved (here : List String) (texts : Texts) (old new : List String → Option Kind) :
    Prop where
  placed : ∀ t ∈ texts, new (here ++ [t.1]) = some (.file (dataOf t.2))
  other : ∀ ns, (∀ t ∈ texts, ns ≠ here ++ [t.1]) → new ns = old ns

theorem Moved.cons {t : String × String} {old mid new : List String → Option Kind}
    (h : Moved here [t] old mid) (h' : Moved here texts mid new) (hnew : ∀ u ∈ texts, t.1 ≠ u.1) :
    Moved here (t :: texts) old new := by
  refine ⟨?_, ?_⟩
  · intro u hu
    rcases List.mem_cons.mp hu with rfl | hu
    · rw [h'.other _ (by simpa using fun a b hab => hnew (a, b) hab), h.placed u (by simp)]
    · exact h'.placed u hu
  · intro ns hns
    rw [h'.other ns fun u hu => hns u (List.mem_cons_of_mem t hu),
      h.other ns fun u hu => hns u (by simp_all)]

theorem Moved.data? {mid : List String → Option Kind} (h : Moved here texts mid fs'.kind?)
    (hg : Grows fs.kind? mid) (hns : ∀ t ∈ texts, ns ≠ here ++ [t.1]) :
    fs'.data? ns = fs.data? ns := by
  rw [FileSystem.data?, FileSystem.data?, h.other ns hns]
  cases hk : fs.kind? ns with
  | some k => rw [hg.kept ns k hk]
  | none =>
    cases hk' : mid ns with
    | none => rfl
    | some k => rw [hg.fresh ns k hk hk']

theorem isDir_append (hc : check (output.append [n]) = .ok ()) (hl : n.utf8ByteSize ≤ maxNameBytes)
    (hn : n ≠ "..") (ho : fs.resolve output = .ok here) (hd : fs.kind? here = some .dir) :
    fs.isDir (output.append [n]) = true ↔ fs.kind? (here ++ [n]) = some .dir := by
  have hlong : ¬ maxNameBytes < n.utf8ByteSize := by omega
  rw [isDir_iff, resolve_append hc ho, step_eq, hd]
  cases hk : fs.kind? (here ++ [n]) with
  | none => simp [hn, hlong]
  | some k => simp [hn, hlong, hk]

/-- A document on its way: what makes its paths usable on both sides. -/
structure Movable (staging output : Path) (stage here : List String) (name : String) : Prop where
  undotted : name.toList.head? ≠ some '.'
  short : name.utf8ByteSize ≤ maxNameBytes
  source : check (staging.append [name]) = .ok ()
  target : check (output.append [name]) = .ok ()
  outside : ¬ stage <+: here ++ [name]

theorem Staged.move_refused {t : String × String} (h : Staged fs staging stage (t :: texts))
    (hm : Movable staging output stage here t.1) (ho : fs.resolve output = .ok here)
    (hd : fs.kind? here = some .dir) (hk : fs.kind? (here ++ [t.1]) = some .dir) :
    fs.move (staging.append [t.1]) (output.append [t.1]) = .error .isDirectory := by
  have hn := ne_of_undotted hm.undotted
  have hsource := h.resolve (by simp) hm.source hm.short hn
  rw [move, read_eq hsource (h.files t (by simp)),
    (isDir_append hm.target hm.short hn ho hd).mpr hk]
  rfl

/-- One document is moved where no directory has its name. -/
theorem Staged.move {t : String × String} (h : Staged fs staging stage (t :: texts))
    (hnew : ∀ u ∈ texts, t.1 ≠ u.1) (hm : Movable staging output stage here t.1)
    (ho : fs.resolve output = .ok here) (hd : fs.kind? here = some .dir)
    (hk : fs.kind? (here ++ [t.1]) ≠ some .dir) :
    ∃ fs', fs.move (staging.append [t.1]) (output.append [t.1]) = .ok fs' ∧
      Staged fs' staging stage texts ∧ KeepsDirs fs fs' ∧
      Moved here [t] (outside stage fs) (outside stage fs') := by
  have hn := ne_of_undotted hm.undotted
  have hsource := h.resolve (by simp) hm.source hm.short hn
  have hnot : fs.isDir (output.append [t.1]) = false := by
    rw [Bool.eq_false_iff]
    exact fun hi => hk ((isDir_append hm.target hm.short hn ho hd).mp hi)
  have hfar : ∀ m, stage ++ [m] ≠ here ++ [t.1] := by
    intro m he
    exact hm.outside (he ▸ List.prefix_append _ _)
  -- First the copy in the output, then the original is taken away.
  have hput := put_of_dir (v := .file (dataOf t.2)) hm.target hm.short ho hd
  have hcopy := sets_insert (n := t.1) (v := .file (dataOf t.2)) hd hk rfl rfl
  generalize hfs₁ : { fs with tree := fs.tree.insert (.file (dataOf t.2)) (here ++ [t.1]) } = fs₁
    at hput hcopy
  have hkeep₁ := hcopy.keepsDirs hk
  have hfile₁ : ∀ u ∈ t :: texts, fs₁.kind? (stage ++ [u.1]) = some (.file (dataOf u.2)) := by
    intro u hu
    rw [hcopy.other _ (hfar u.1), h.files u hu]
  have hstaged₁ : Staged fs₁ staging stage (t :: texts) := by
    refine ⟨hkeep₁.resolve h.path h.dir, hkeep₁.dirs _ h.dir, ?_, hfile₁⟩
    intro m
    rw [hcopy.other _ (hfar m)]
    exact h.flat m
  have herase := sets_erase (hstaged₁.flat t.1)
  have hkeep₂ := herase.keepsDirs (hstaged₁.flat t.1)
  refine ⟨_, ?_, ⟨hkeep₂.resolve hstaged₁.path hstaged₁.dir, hkeep₂.dirs _ hstaged₁.dir, ?_, ?_⟩,
    hkeep₁.trans hkeep₂, ⟨?_, ?_⟩⟩
  · rw [FileSystem.move, read_eq hsource (h.files t (by simp)), hnot]
    change (fs.put (output.append [t.1]) (.file (dataOf t.2)) >>= fun f =>
      .ok (f.erase (staging.append [t.1]))) = _
    rw [hput]
    change Except.ok (fs₁.erase (staging.append [t.1])) = _
    rw [FileSystem.erase, hstaged₁.resolve (by simp) hm.source hm.short hn]
  · intro m
    by_cases he : m = t.1
    · rw [he, herase.self]
      simp
    · rw [herase.other _ (by simpa using he)]
      exact hstaged₁.flat m
  · intro u hu
    rw [herase.other _ (by simpa using (hnew u hu).symm), hfile₁ u (List.mem_cons_of_mem t hu)]
  · intro u hu
    rw [List.mem_singleton.mp hu, outside_of_sets herase, outside, if_neg hm.outside, hcopy.self]
    rfl
  · intro ns hns
    rw [outside_of_sets herase, outside, outside, hcopy.other ns (hns t (by simp))]

/-- How far the moves got: all the way, or to the first document whose name a directory has. -/
inductive Reached (view : List String → Option Kind) (here : List String) (texts moved : Texts) :
    Except FileError Unit → Prop where
  | all : moved = texts → Reached view here texts moved (.ok ())
  | blocked (t : String × String) (left : Texts) : texts = moved ++ t :: left →
      view (here ++ [t.1]) = some .dir → Reached view here texts moved (.error .isDirectory)

theorem moveIn_spec (h : Staged fs staging stage texts) (hn : (Pairs.keys texts).Nodup)
    (hm : ∀ t ∈ texts, Movable staging output stage here t.1)
    (ho : fs.resolve output = .ok here) (hd : fs.kind? here = some .dir) :
    ∃ r fs' moved, moveIn texts staging output fs = (r, fs') ∧ KeepsDirs fs fs' ∧
      Moved here moved (outside stage fs) (outside stage fs') ∧
      Reached (outside stage fs') here texts moved r := by
  induction texts generalizing fs with
  | nil =>
    exact ⟨.ok (), fs, [], rfl, KeepsDirs.refl fs, ⟨by simp, fun _ _ => rfl⟩, .all rfl⟩
  | cons t texts ih =>
    rw [Pairs.keys, List.map_cons, List.nodup_cons] at hn
    have hnew : ∀ u ∈ texts, t.1 ≠ u.1 := fun u hu he => hn.1 (he ▸ List.mem_map_of_mem hu)
    have hcons : moveIn (t :: texts) staging output =
        (change (·.move (staging.append [t.1]) (output.append [t.1])) >>= fun _ =>
          moveIn texts staging output) := rfl
    rw [hcons]
    by_cases hk : fs.kind? (here ++ [t.1]) = some .dir
    · have hmove := h.move_refused (hm t (by simp)) ho hd hk
      exact ⟨_, fs, [], bind_error (change_error hmove), KeepsDirs.refl fs,
        ⟨by simp, fun _ _ => rfl⟩,
        .blocked t texts rfl (by rwa [outside, if_neg (hm t (by simp)).outside])⟩
    · obtain ⟨fs₁, hmove, hstaged, hkeep, hmoved⟩ := h.move hnew (hm t (by simp)) ho hd hk
      obtain ⟨r, fs', moved, hrun, hkeep', hmoved', hreach⟩ := ih hstaged hn.2
        (fun u hu => hm u (List.mem_cons_of_mem t hu)) (hkeep.resolve ho hd) (hkeep.dirs _ hd)
      refine ⟨r, fs', t :: moved, (bind_ok (change_ok hmove)).trans hrun, hkeep.trans hkeep',
        ?_, ?_⟩
      · have hsub : ∀ u ∈ moved, u ∈ texts := by
          cases hreach with
          | all he => exact fun u hu => he ▸ hu
          | blocked v left he _ => exact fun u hu => he ▸ List.mem_append_left _ hu
        exact hmoved.cons hmoved' fun u hu => hnew u (hsub u hu)
      · cases hreach with
        | all he => exact .all (by rw [he])
        | blocked v left he hv => exact .blocked v left (by rw [he]; rfl) hv

theorem output_cases (hr : fs.resolve output.parent = .ok above)
    (ho : fs.resolve output = .ok here) :
    (output.parts = [] ∧ here = above) ∨
    (output.parts ≠ [] ∧ output.name = ".." ∧ here = above.dropLast) ∨
    (output.parts ≠ [] ∧ output.name ≠ ".." ∧ output.name.utf8ByteSize ≤ maxNameBytes ∧
      here = above ++ [output.name]) := by
  by_cases hp : output.parts = []
  · have hparent : output.parent = output := by cases output; simp_all [Path.parent]
    rw [hparent, ho] at hr
    exact .inl ⟨hp, Except.ok.inj hr⟩
  · have happ := Path.append_parent hp
    have hstep := resolve_append (by rw [happ]; exact check_of_resolve ho) hr
    rw [happ, ho] at hstep
    have hd := dir_of_step hstep.symm
    rw [step_eq, hd] at hstep
    by_cases hup : output.name = ".."
    · exact .inr (.inl ⟨hp, hup, by simpa [hup] using hstep⟩)
    · by_cases hl : maxNameBytes < output.name.utf8ByteSize
      · simp [hup, hl] at hstep
      · by_cases hk : (fs.kind? (above ++ [output.name])).isSome
        · exact .inr (.inr ⟨hp, hup, by omega, by simpa [hup, hl, hk] using hstep⟩)
        · simp [hup, hl, hk] at hstep

theorem resolve_output (hr : fs.resolve output.parent = .ok above)
    (ho : fs.resolve output = .ok here) (hr' : fs'.resolve output.parent = .ok above)
    (ha : fs'.kind? above = some .dir) (hd : fs'.kind? here = some .dir) :
    fs'.resolve output = .ok here := by
  rcases output_cases hr ho with ⟨hp, rfl⟩ | ⟨hp, hup, rfl⟩ | ⟨hp, hup, hl, rfl⟩
  · have hparent : output.parent = output := by cases output; simp_all [Path.parent]
    rwa [hparent] at hr'
  all_goals
    have happ := Path.append_parent hp
    have hstep := resolve_append (by rw [happ]; exact check_of_resolve ho) hr'
    rw [happ, step_eq, ha] at hstep
    rw [hstep]
  · simp [hup]
  · have hlong : ¬ maxNameBytes < output.name.utf8ByteSize := by omega
    simp [hup, hlong, hd]

theorem not_within_stage {k : Nat} (hr : fs.resolve output.parent = .ok above)
    (ho : fs.resolve output = .ok here) (hn : n.toList.head? ≠ some '.') :
    ¬ above ++ [stagingName output k] <+: here ++ [n] := by
  have hne : stagingName output k ≠ n := fun he => hn (he ▸ head_stagingName output k)
  intro hp
  rcases output_cases hr ho with ⟨-, rfl⟩ | ⟨-, -, rfl⟩ | ⟨-, -, -, rfl⟩
  · rw [List.prefix_append_right_inj] at hp
    simp [hne] at hp
  · have hlen := hp.length_le
    cases above using List.reverseRecOn with
    | nil => simp [hne] at hp
    | append_singleton init last => simp at hlen
  · rw [List.append_assoc, List.prefix_append_right_inj] at hp
    simp [stagingName_ne_name] at hp

theorem not_stage_output {k : Nat} (hr : fs.resolve output.parent = .ok above)
    (ho : fs.resolve output = .ok here) : ¬ above ++ [stagingName output k] <+: here := by
  intro hp
  exact not_within_stage (n := "") hr ho (by decide) (hp.trans (List.prefix_append _ _))

/-- A directory made elsewhere leaves the documents beside the output alone. -/
theorem Staged.grow (h : Staged fs staging stage texts) (hs : Sets fs fs' ns (some .dir))
    (hn : fs.kind? ns = none) (hout : ¬ stage <+: ns) : Staged fs' staging stage texts := by
  have hkeep := hs.keepsDirs (by simp [hn])
  have hsame : ∀ m, fs'.kind? (stage ++ [m]) = fs.kind? (stage ++ [m]) :=
    fun m => hs.other _ (by rintro rfl; exact hout (List.prefix_append _ _))
  refine ⟨hkeep.resolve h.path h.dir, hkeep.dirs _ h.dir, ?_, ?_⟩
  · intro m
    rw [hsame]
    exact h.flat m
  · intro t ht
    rw [hsame]
    exact h.files t ht

theorem grows_outside (hs : Sets fs fs' ns (some .dir)) (hn : fs.kind? ns = none) :
    Grows (outside stage fs) (outside stage fs') := by
  have hgrow := hs.grows hn
  refine ⟨?_, ?_⟩
  · intro ms k hk
    rw [outside] at hk ⊢
    split at hk
    · cases hk
    · next hp =>
      rw [if_neg hp]
      exact hgrow.kept ms k hk
  · intro ms k hm hk
    rw [outside] at hm hk
    split at hk
    · cases hk
    · next hp =>
      rw [if_neg hp] at hm
      exact hgrow.fresh ms k hm hk

def Stopped (r : Except FileError Unit) : Prop := r ≠ .ok () ∧ r ≠ .error .isDirectory

/-- Either nothing happened outside of the directory beside the output, or the output is there and
some documents have been moved into it. -/
theorem fill_spec {k : Nat} (hstaging : staging = output.parent.append [stagingName output k])
    (hstage : stage = above ++ [stagingName output k]) (h : Staged fs staging stage [])
    (hp : Proper texts) (hr : fs.resolve output.parent = .ok above)
    (hd : fs.kind? above = some .dir) :
    ∃ r fs', fill texts staging output fs = (r, fs') ∧ KeepsDirs fs fs' ∧
      (Stopped r ∧ outside stage fs' = outside stage fs ∨
        ∃ here moved mid, Grows (outside stage fs) mid ∧
          (∀ ns, ns ≠ here → mid ns = outside stage fs ns) ∧
          Moved here moved mid (outside stage fs') ∧
          fs'.resolve output = .ok here ∧ fs'.kind? here = some .dir ∧
          Reached (outside stage fs') here texts moved r) := by
  obtain ⟨r₁, fs₁, hwrite, hout₁, hkeep₁, hfault, hall⟩ := write_spec h (by simpa using hp.nodup)
  cases r₁ with
  | error e => exact ⟨_, fs₁, bind_error hwrite, hkeep₁, .inl ⟨⟨by simp, hfault⟩, hout₁⟩⟩
  | ok u =>
    obtain ⟨hstaged, hpass⟩ := hall rfl
    rw [List.nil_append] at hstaged
    have hr₁ := hkeep₁.resolve hr hd
    rcases makeDirs_below hr₁ (hkeep₁.dirs _ hd) with ⟨e, hmake⟩ | ⟨fs₂, here, hmake, ho, hk, hnew⟩
    · have hstop := makeDirs_fault output fs₁
      rw [hmake] at hstop
      exact ⟨_, fs₁, (bind_ok hwrite).trans (bind_error hmake), hkeep₁,
        .inl ⟨⟨by simp, hstop⟩, hout₁⟩⟩
    · have hkeep₂ : KeepsDirs fs₁ fs₂ := by
        rcases hnew with rfl | ⟨-, hn, hs⟩
        · exact KeepsDirs.refl fs₂
        · exact hs.keepsDirs (by simp [hn])
      have hr₂ := hkeep₂.resolve hr₁ (hkeep₁.dirs _ hd)
      have hfar : ¬ stage <+: here := hstage ▸ not_stage_output hr₂ ho
      have hstaged₂ : Staged fs₂ staging stage texts := by
        rcases hnew with rfl | ⟨-, hn, hs⟩
        · exact hstaged
        · exact hstaged.grow hs hn hfar
      have hgrow : Grows (outside stage fs) (outside stage fs₂) := by
        rw [← hout₁]
        rcases hnew with rfl | ⟨-, hn, hs⟩
        · exact Grows.refl _
        · exact grows_outside hs hn
      have hsame : ∀ ns, ns ≠ here → outside stage fs₂ ns = outside stage fs ns := by
        intro ns hne
        rw [← hout₁]
        rcases hnew with rfl | ⟨-, -, hs⟩
        · rfl
        · rw [outside, outside, hs.other ns hne]
      have hmovable : ∀ t ∈ texts, Movable staging output stage here t.1 := by
        intro t ht
        obtain ⟨hc, hl⟩ := hpass t ht
        refine ⟨hp.undotted t ht, hl, hc, ?_, ?_⟩
        · rw [hstaging] at hc
          exact check_output hc
        · rw [hstage]
          exact not_within_stage hr₂ ho (hp.undotted t ht)
      obtain ⟨r, fs₃, moved, hmove, hkeep₃, hmoved, hreach⟩ :=
        moveIn_spec hstaged₂ hp.nodup hmovable ho hk
      refine ⟨r, fs₃, ((bind_ok hwrite).trans (bind_ok hmake)).trans hmove,
        (hkeep₁.trans hkeep₂).trans hkeep₃, .inr ?_⟩
      exact ⟨here, moved, outside stage fs₂, hgrow, hsame, hmoved, hkeep₃.resolve ho hk,
        hkeep₃.dirs _ hk, hreach⟩

theorem outside_of_made (hs : Sets fs fs' stage (some .dir)) (hn : fs.kind? stage = none) :
    outside stage fs' = fs.kind? := by
  funext ns
  rw [outside]
  split
  · next hp => exact (kind?_below hn hp).symm
  · next hp => exact hs.other ns (by rintro rfl; exact hp (List.prefix_refl _))

theorem kind?_erase (hr : fs.resolve staging = .ok (above ++ [n])) :
    (fs.erase staging).kind? = outside (above ++ [n]) fs := by
  funext ns
  rw [FileSystem.erase, hr]
  exact FileTree.kind?_erase _ _ _ _

theorem get_bind {α : Type} (next : FileSystem → FileAction α) :
    ((get : FileAction FileSystem) >>= next) fs = next fs fs := rfl

theorem publish_within {fs₀ : FileSystem} (h : makeDirs output.parent fs = (.ok (), fs₀)) :
    publish texts output fs = (change (·.makeDir (stagingPath fs₀ output)) >>= fun _ =>
      finallyErase (stagingPath fs₀ output) (fill texts (stagingPath fs₀ output) output)) fs₀ := by
  rw [publish, bind_ok h, get_bind]

theorem not_isDir_of_erased {name : String} (hn : name ≠ "..")
    (hr : fs.resolve output = .ok above) (hk : fs.kind? (above ++ [name]) = none) :
    fs.isDir (output.append [name]) = false := by
  rw [Bool.eq_false_iff]
  intro hdir
  obtain ⟨here, hh, hd⟩ := isDir_iff.mp hdir
  have hstep := resolve_append (check_of_resolve hh) hr
  rw [hh] at hstep
  have habove := dir_of_step hstep.symm
  rw [step_eq, habove, hk] at hstep
  by_cases hl : maxNameBytes < name.utf8ByteSize <;> simp [hn, hl] at hstep

/-- A publication either fails and changes no file, or the output is there in the end, all new
directories lie on the way to it, the one beside it is gone, and the documents up to the first whose
name a directory has stand in it. -/
theorem publish_trace (hp : Proper texts) (output : Path) (fs : FileSystem) :
    ∃ r fs', publish texts output fs = (r, fs') ∧
      (Stopped r ∧ Grows fs.kind? fs'.kind? ∨
        ∃ here moved mid, Grows fs.kind? mid ∧ KeepsDirs fs fs' ∧
          (∀ ns, fs.kind? ns = none → mid ns = some .dir → OnWay fs' output ns) ∧
          fs'.isDir (stagingPath (makeDirs output.parent fs).2 output) = false ∧
          Moved here moved mid fs'.kind? ∧
          fs'.resolve output = .ok here ∧ fs'.kind? here = some .dir ∧
          Reached fs'.kind? here texts moved r) := by
  have hgrow₀ := grows_makeDirs output.parent fs
  have hpave₀ := paves_makeDirs output.parent fs
  have hfault₀ := makeDirs_fault output.parent fs
  cases hparent : makeDirs output.parent fs with
  | mk r₀ fs₀ =>
    rw [hparent] at hgrow₀ hfault₀ hpave₀
    cases r₀ with
    | error e =>
      exact ⟨.error e, fs₀, by rw [publish, bind_error hparent],
        .inl ⟨⟨by simp, hfault₀⟩, hgrow₀⟩⟩
    | ok u =>
      obtain ⟨k, hk⟩ := exists_stagingName fs₀ output
      rw [publish_within hparent]
      generalize hstaging : stagingPath fs₀ output = staging at hk ⊢
      cases hmake : fs₀.makeDir staging with
      | error e =>
        refine ⟨_, fs₀, bind_error (change_error hmake), .inl ⟨⟨by simp, ?_⟩, hgrow₀⟩⟩
        intro he
        cases he
        exact makeDir_ne_isDirectory hmake
      | ok fs₁ =>
        obtain ⟨above, hr, hd, -, hn, hs, hres⟩ := makeDir_eq_ok hmake
        rw [hk, Path.parent_append] at hr
        rw [hk, Path.name_append] at hn hs hres
        have hkeep := hs.keepsDirs (by simp [hn])
        have hstaged : Staged fs₁ staging (above ++ [stagingName output k]) [] := by
          refine ⟨hk ▸ hres, hs.self, ?_, by simp⟩
          intro m hm
          rw [hs.other _ (by simp), kind?_below hn (List.prefix_append _ _)] at hm
          cases hm
        have hr₁ := hkeep.resolve hr hd
        obtain ⟨r, fs₂, hfill, hkeep₂, hcases⟩ :=
          fill_spec hk rfl hstaged hp hr₁ (hkeep.dirs _ hd)
        have hview := kind?_erase (hkeep₂.resolve hstaged.path hstaged.dir)
        have hrun : (change (·.makeDir staging) >>= fun _ =>
            finallyErase staging (fill texts staging output)) fs₀ = (r, fs₂.erase staging) := by
          rw [bind_ok (change_ok hmake), finallyErase, hfill]
        refine ⟨r, _, hrun, ?_⟩
        rw [hview]
        rw [outside_of_made hs hn] at hcases
        rcases hcases with ⟨he, hsame⟩ | ⟨here, moved, mid, hgrow, hsame, hmoved, ho, hh, hreach⟩
        · exact .inl ⟨he, hsame ▸ hgrow₀⟩
        · have hr₂ := hkeep₂.resolve hr₁ (hkeep.dirs _ hd)
          have hfar := not_stage_output (k := k) hr₂ ho
          have hh' : (fs₂.erase staging).kind? here = some .dir := by
            rw [hview, outside, if_neg hfar, hh]
          -- The directory beside the output is not on the way to it.
          have hlast : KeepsDirs fs₀ (fs₂.erase staging) := by
            refine ⟨?_, ?_⟩
            · rw [FileSystem.erase]
              split <;> exact hkeep₂.cwd.trans hkeep.cwd
            · intro ns hns
              rw [hview, outside, if_neg ?_]
              · exact hkeep₂.dirs ns (hkeep.dirs ns hns)
              · intro hp
                rw [kind?_below hn hp] at hns
                cases hns
          have hout := resolve_output hr₂ ho (hlast.resolve hr hd) (hlast.dirs _ hd) hh'
          refine .inr ⟨here, moved, mid, hgrow₀.trans hgrow, hpave₀.keeps.trans hlast, ?_, ?_,
            hmoved, hout, hview ▸ hh', hreach⟩
          · intro ns hfree hdir
            by_cases he : ns = here
            · exact he ▸ onWay_of_resolve hout
            · rw [hsame ns he] at hdir
              exact (hpave₀.fresh ns hfree hdir).of_parent.keep hlast hdir
          · have hgone : (fs₂.erase staging).kind? (above ++ [stagingName output k]) = none := by
              rw [hview, outside, if_pos (List.prefix_refl _)]
            have hfree :=
              not_isDir_of_erased (stagingName_ne_up output k) (hlast.resolve hr hd) hgone
            rwa [← hk] at hfree

theorem publish_spec (hp : Proper texts) (output : Path) (fs : FileSystem) :
    ∃ r fs', publish texts output fs = (r, fs') ∧
      (Stopped r ∧ Grows fs.kind? fs'.kind? ∨
        ∃ here moved mid, Grows fs.kind? mid ∧ Moved here moved mid fs'.kind? ∧
          fs'.resolve output = .ok here ∧ fs'.kind? here = some .dir ∧
          Reached fs'.kind? here texts moved r) := by
  obtain ⟨r, fs', hrun, hstop | ⟨here, moved, mid, hgrow, -, -, -, hrest⟩⟩ :=
    publish_trace hp output fs
  · exact ⟨r, fs', hrun, .inl hstop⟩
  · exact ⟨r, fs', hrun, .inr ⟨here, moved, mid, hgrow, hrest⟩⟩

end RouteBook.Publication
