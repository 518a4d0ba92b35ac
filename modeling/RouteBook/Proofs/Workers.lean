import Mathlib.Logic.Relation
import RouteBook.Extraction

/-! Files that are read by several workers at the same time. They are taken up in their order and
may be finished in any order; what they gave is looked at in their order. Main statement: whatever
the workers do, the survey is the one of the files read one after the other. -/
namespace RouteBook.Extraction

inductive Progress where
  | waiting
  | running
  | done (r : Except Failure Outcome)

/-- The files in their order. -/
abbrev Pool := List (String × Progress)

namespace Pool
variable {fs : FileSystem} {workers : Nat} {pool next : Pool} {files : List String}

def start (files : List String) : Pool := files.map fun f => (f, .waiting)

def isRunning : String × Progress → Bool
  | (_, .running) => true
  | _ => false

def isWaiting : String × Progress → Bool
  | (_, .waiting) => true
  | _ => false

/-- A free worker takes up the first file that waits, or some worker is done with its file. -/
inductive Step (fs : FileSystem) (workers : Nat) : Pool → Pool → Prop where
  | begin (before after : Pool) (file : String) : before.any isWaiting = false →
      (before ++ after).countP isRunning < workers →
      Step fs workers (before ++ (file, .waiting) :: after) (before ++ (file, .running) :: after)
  | finish (before after : Pool) (file : String) :
      Step fs workers (before ++ (file, .running) :: after)
        (before ++ (file, .done (fromFile fs file)) :: after)

abbrev Runs (fs : FileSystem) (workers : Nat) : Pool → Pool → Prop :=
  Relation.ReflTransGen (Step fs workers)

/-- The survey as soon as it can be told: all files are done, or all before one that failed. -/
def survey? : Pool → Option Survey
  | [] => some {}
  | (_, .done (.error e)) :: _ => some { failure? := some e }
  | (file, .done (.ok o)) :: rest =>
    (survey? rest).map fun s => { s with outcomes := (file, o) :: s.outcomes }
  | _ :: _ => none

/-- What every run keeps: the files, and that those done gave what they give. -/
structure Sound (fs : FileSystem) (files : List String) (pool : Pool) : Prop where
  files : pool.map Prod.fst = files
  results : ∀ p ∈ pool, ∀ r, p.2 = .done r → r = fromFile fs p.1

theorem sound_start (fs : FileSystem) (files : List String) : Sound fs files (start files) := by
  refine ⟨by simp [start, Function.comp_def], ?_⟩
  intro p hp r hr
  obtain ⟨f, -, rfl⟩ := List.mem_map.mp hp
  cases hr

theorem Sound.replace {before after : Pool} {file : String} {old new : Progress}
    (h : Sound fs files (before ++ (file, old) :: after))
    (hnew : ∀ r, new = .done r → r = fromFile fs file) :
    Sound fs files (before ++ (file, new) :: after) := by
  refine ⟨by simpa using h.files, ?_⟩
  intro p hp r hr
  rcases List.mem_append.mp hp with hp | hp
  · exact h.results p (by simp [hp]) r hr
  · rcases List.mem_cons.mp hp with rfl | hp
    · exact hnew r hr
    · exact h.results p (by simp [hp]) r hr

theorem Sound.step (h : Sound fs files pool) (hs : Step fs workers pool next) :
    Sound fs files next := by
  cases hs with
  | begin before after file hfirst hfree =>
    exact h.replace fun r hr => by cases hr
  | finish before after file =>
    exact h.replace fun r hr => (Progress.done.inj hr).symm

theorem Sound.run (h : Sound fs files pool) (hr : Runs fs workers pool next) :
    Sound fs files next := by
  induction hr with
  | refl => exact h
  | tail _ hs ih => exact ih.step hs

theorem Sound.tail {p : String × Progress} (h : Sound fs files (p :: pool)) :
    Sound fs files.tail pool := by
  refine ⟨?_, fun q hq => h.results q (List.mem_cons_of_mem p hq)⟩
  rw [← h.files, List.map_cons, List.tail_cons]

theorem Sound.survey?_eq {s : Survey} (h : Sound fs files pool) (hs : survey? pool = some s) :
    s = survey fs files := by
  induction pool generalizing files s with
  | nil =>
    rw [← h.files]
    exact (Option.some.inj hs).symm
  | cons p rest ih =>
    obtain ⟨file, progress⟩ := p
    obtain ⟨files, rfl⟩ : ∃ more, files = file :: more := ⟨_, h.files.symm⟩
    cases progress with
    | waiting => cases hs
    | running => cases hs
    | done r =>
      have hr : r = fromFile fs file := h.results (file, .done r) List.mem_cons_self r rfl
      cases r with
      | error e =>
        rw [survey, ← hr]
        exact (Option.some.inj hs).symm
      | ok o =>
        obtain ⟨more, hmore, rfl⟩ := Option.map_eq_some_iff.mp hs
        rw [survey, ← hr, ih h.tail hmore]
        rfl

def left : Pool → Nat
  | [] => 0
  | (_, .waiting) :: rest => left rest + 2
  | (_, .running) :: rest => left rest + 1
  | (_, .done _) :: rest => left rest

theorem left_append (before after : Pool) : left (before ++ after) = left before + left after := by
  induction before with
  | nil => simp [left]
  | cons p before ih =>
    obtain ⟨file, progress⟩ := p
    cases progress <;> simp only [List.cons_append, left, ih] <;> omega

theorem left_step (hs : Step fs workers pool next) : left next < left pool := by
  cases hs with
  | begin before after file hfirst hfree => simp [left_append, left]
  | finish before after file => simp [left_append, left]

theorem survey?_isSome (h : left pool = 0) : (survey? pool).isSome := by
  induction pool with
  | nil => rfl
  | cons p rest ih =>
    obtain ⟨file, progress⟩ := p
    cases progress with
    | waiting => simp [left] at h
    | running => simp [left] at h
    | done r =>
      cases r with
      | error e => rfl
      | ok o => simpa [survey?] using ih h

theorem exists_active (h : left pool ≠ 0) :
    ∃ p ∈ pool, isRunning p = true ∨ isWaiting p = true := by
  induction pool with
  | nil => exact absurd rfl h
  | cons p rest ih =>
    obtain ⟨file, progress⟩ := p
    cases progress with
    | waiting => exact ⟨_, List.mem_cons_self, .inr rfl⟩
    | running => exact ⟨_, List.mem_cons_self, .inl rfl⟩
    | done r =>
      obtain ⟨p, hp, ha⟩ := ih h
      exact ⟨p, List.mem_cons_of_mem _ hp, ha⟩

theorem exists_step (hw : 0 < workers) (h : left pool ≠ 0) : ∃ next, Step fs workers pool next := by
  by_cases hrun : ∃ p ∈ pool, isRunning p = true
  · obtain ⟨⟨file, progress⟩, hmem, hp⟩ := hrun
    obtain ⟨before, after, rfl⟩ := List.append_of_mem hmem
    cases progress with
    | running => exact ⟨_, .finish before after file⟩
    | waiting => cases hp
    | done r => cases hp
  · -- All workers are free, and the first file that waits can be taken up.
    obtain ⟨p, hp, ha⟩ := exists_active h
    have hwait : isWaiting p = true := ha.resolve_left fun hr => hrun ⟨p, hp, hr⟩
    obtain ⟨q, hfind⟩ := Option.isSome_iff_exists.mp (List.find?_isSome.mpr ⟨p, hp, hwait⟩)
    obtain ⟨hq, before, after, rfl, hbefore⟩ := List.find?_eq_some_iff_append.mp hfind
    obtain ⟨file, progress⟩ := q
    have hfree : (before ++ after).countP isRunning = 0 := by
      rw [List.countP_eq_zero]
      intro r hr hrr
      refine hrun ⟨r, ?_, hrr⟩
      rcases List.mem_append.mp hr with hr | hr <;> simp [hr]
    cases progress with
    | waiting => exact ⟨_, .begin before after file (by simpa using hbefore) (by omega)⟩
    | running => cases hq
    | done r => cases hq

theorem runs_to_end (hw : 0 < workers) (pool : Pool) :
    ∃ last, Runs fs workers pool last ∧ (survey? last).isSome := by
  by_cases h : left pool = 0
  · exact ⟨pool, .refl, survey?_isSome h⟩
  · obtain ⟨next, hs⟩ := exists_step hw h
    have hless := left_step hs
    obtain ⟨last, hr, hl⟩ := runs_to_end hw next
    exact ⟨last, .head hs hr, hl⟩
termination_by left pool

/-- However far the workers are, they can come to an end, and what they tell then is the survey of
the files one after the other. -/
theorem survey?_of_runs (hw : 0 < workers) (h : Runs fs workers (start files) pool) :
    (∃ last, Runs fs workers pool last ∧ survey? last = some (survey fs files)) ∧
      ∀ s, survey? pool = some s → s = survey fs files := by
  have hsound := (sound_start fs files).run h
  refine ⟨?_, fun s hs => hsound.survey?_eq hs⟩
  obtain ⟨last, hr, hl⟩ := runs_to_end hw pool
  obtain ⟨s, hs⟩ := Option.isSome_iff_exists.mp hl
  exact ⟨last, hr, (hsound.run hr).survey?_eq hs ▸ hs⟩

end Pool

end RouteBook.Extraction
