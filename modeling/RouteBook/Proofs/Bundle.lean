import Mathlib.Data.List.Induction
import RouteBook.Bundle
import RouteBook.Proofs.Except
import RouteBook.Proofs.Pairs

/-! Which documents a bundle holds: those of its formats, each with its own text. -/
namespace RouteBook.Bundle
variable {ds : List Descriptor} {config : RenderConfig}

structure Holds (ds : List Descriptor) (config : RenderConfig) (formats : List Format)
    (files : Documents) : Prop where
  sound : ∀ p ∈ files, ∃ f ∈ formats, p ∈ (documents ds config f).1
  listed : ∀ f ∈ formats, ∀ p ∈ (documents ds config f).1, p.1 ∈ Pairs.keys files

theorem Holds.add {formats : List Format} {files : Documents}
    (h : Holds ds config formats files) (f : Format) :
    Holds ds config (formats ++ [f]) (Pairs.update files (documents ds config f).1) := by
  refine ⟨?_, ?_⟩
  · intro p hp
    rcases Pairs.mem_update hp with hp | hp
    · obtain ⟨g, hg, hpg⟩ := h.sound p hp
      exact ⟨g, List.mem_append_left _ hg, hpg⟩
    · exact ⟨f, by simp, hp⟩
  · intro g hg p hp
    rw [Pairs.mem_keys_update]
    rcases List.mem_append.mp hg with hg | hg
    · exact .inl (h.listed g hg p hp)
    · rw [List.mem_singleton.mp hg] at hp
      exact .inr (List.mem_map.mpr ⟨p, hp, rfl⟩)

theorem renderFormats_concat (formats : List Format) (f : Format) :
    (renderFormats ds config (formats ++ [f])).1 =
      Pairs.update (renderFormats ds config formats).1 (documents ds config f).1 := by
  simp [renderFormats]

theorem holds_renderFormats (formats : List Format) :
    Holds ds config formats (renderFormats ds config formats).1 := by
  induction formats using List.reverseRecOn with
  | nil => exact ⟨by simp [renderFormats], by simp⟩
  | append_singleton formats f ih =>
    rw [renderFormats_concat]
    exact ih.add f

theorem documents_unique {name text other : String} {f g : Format}
    (hf : (name, text) ∈ (documents ds config f).1)
    (hg : (name, other) ∈ (documents ds config g).1) : other = text := by
  cases f <;> cases g <;> simp only [documents, List.mem_cons, Prod.mk.injEq] at hf hg <;> grind

theorem Holds.get? {formats : List Format} {files : Documents}
    (h : Holds ds config formats files) {f : Format} (hf : f ∈ formats) {name text : String}
    (hp : (name, text) ∈ (documents ds config f).1) : Pairs.get? name files = some text := by
  cases hg : Pairs.get? name files with
  | none => exact absurd (h.listed f hf _ hp) (Pairs.get?_eq_none_iff.mp hg)
  | some other =>
    obtain ⟨g, -, ho⟩ := h.sound _ (Pairs.mem_of_get? hg)
    rw [documents_unique hp ho]

theorem Format.ofName?_name (f : Format) : Format.ofName? f.name = some f := by
  cases f <;> rfl

theorem holds_of_render {names : List String} {files : Documents} {logs : List LogRecord}
    (h : render ds config names = .ok (files, logs)) :
    ∃ formats, Holds ds config formats files := by
  unfold render at h
  split at h
  · cases h
  · obtain ⟨formats, -, hr⟩ := (Outcome.map_eq_ok_iff _ _ _).mp h
    have hfiles : (renderFormats ds config formats).1 = files := by rw [hr]
    exact ⟨formats, hfiles ▸ holds_renderFormats formats⟩

def formatsOf (names : List String) : List Format :=
  names.map fun n => (Format.ofName? n).getD .openapi

theorem mem_formatsOf {f : Format} {names : List String} (h : f.name ∈ names) :
    f ∈ formatsOf names := by
  refine List.mem_map.mpr ⟨f.name, h, ?_⟩
  rw [Format.ofName?_name, Option.getD_some]

theorem exists_bundle (hd : ds ≠ []) (config : RenderConfig) {names : List String}
    (hn : ∀ n ∈ names, n ∈ Format.all.map Format.name) :
    ∃ files logs, render ds config names = .ok (files, logs) ∧
      Holds ds config (formatsOf names) files := by
  refine ⟨(renderFormats ds config (formatsOf names)).1,
    (renderFormats ds config (formatsOf names)).2, ?_, holds_renderFormats _⟩
  rw [render, if_neg (by simpa using hd), Outcome.mapM_eq_ok_map]
  · rfl
  · intro n hm
    obtain ⟨f, -, rfl⟩ := List.mem_map.mp (hn n hm)
    rw [Format.ofName?_name]
    rfl

end RouteBook.Bundle
