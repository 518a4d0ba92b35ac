import RouteBook.Markdown
import RouteBook.Proofs.Grouping

/-! The lines of the Markdown document are those of its items, so that each route has its
heading; and the cells of its tables hold no line feed. -/
namespace RouteBook.Markdown

theorem splitOn_joined {items : List (List Char)} (h : items ≠ []) :
    (['\n'].intercalate items).splitOn '\n' = items.flatMap (·.splitOn '\n') := by
  induction items with
  | nil => exact absurd rfl h
  | cons item items ih =>
    cases items with
    | nil => simp
    | cons next items =>
      have hcut : ['\n'].intercalate (item :: next :: items) =
          item ++ '\n' :: ['\n'].intercalate (next :: items) := by
        simp [List.intercalate_cons_cons]
      rw [hcut, List.splitOn_append_cons_self, ih (by simp), ← List.flatMap_cons]

theorem not_mem_of_mem_splitOn {text line : List Char} (h : line ∈ text.splitOn '\n') :
    '\n' ∉ line := by
  induction text generalizing line with
  | nil =>
    rw [List.splitOn_nil, List.mem_singleton] at h
    simp [h]
  | cons c text ih =>
    rw [List.splitOn_cons_eq_if_modifyHead] at h
    obtain ⟨first, lines, hs⟩ := List.exists_cons_of_ne_nil (List.splitOn_ne_nil '\n' text)
    by_cases hc : c = '\n'
    · simp only [hc, beq_self_eq_true, if_true, List.mem_cons] at h
      rcases h with rfl | h
      · simp
      · exact ih h
    · rw [if_neg (by simpa using hc), hs, List.modifyHead_cons, List.mem_cons] at h
      rcases h with rfl | h
      · have hfirst : '\n' ∉ first := ih (hs ▸ List.mem_cons_self)
        simp [hfirst, Ne.symm hc]
      · exact ih (hs ▸ List.mem_cons_of_mem first h)

/-- The items of the document, of which some may take several lines. -/
def items (ds : List Descriptor) (config : RenderConfig) : List String :=
  preamble config ++ (Grouping.byTag ds).flatMap group

theorem lines_render (ds : List Descriptor) (config : RenderConfig) :
    (render ds config).toList.splitOn '\n' =
      (items ds config).flatMap fun item => item.toList.splitOn '\n' := by
  have hne : (items ds config).map String.toList ≠ [] := by simp [items, preamble]
  have htext : (render ds config).toList =
      ['\n'].intercalate ((items ds config).map String.toList) :=
    String.toList_intercalate
  rw [htext, splitOn_joined hne, List.flatMap_map]

theorem heading_mem_items {ds : List Descriptor} (config : RenderConfig) {d : Descriptor}
    (hd : d ∈ ds) : heading d ∈ items ds config := by
  obtain ⟨g, hg, hdg⟩ := Grouping.exists_group hd
  refine List.mem_append_right _ (List.mem_flatMap.mpr ⟨g, hg, ?_⟩)
  refine List.mem_append_right _ (List.mem_flatMap.mpr ⟨d, hdg, ?_⟩)
  simp [route]

theorem mem_lines_of_mem_items {ds : List Descriptor} {config : RenderConfig} {item : String}
    (h : item ∈ items ds config) (hn : '\n' ∉ item.toList) :
    item.toList ∈ (render ds config).toList.splitOn '\n' := by
  rw [lines_render]
  refine List.mem_flatMap.mpr ⟨item, h, ?_⟩
  rw [List.splitOn_eq_singleton hn]
  exact List.mem_singleton_self _

theorem not_mem_cell (s : String) : '\n' ∉ (cell s).toList := by
  rw [cell, String.toList_ofList, List.mem_flatMap]
  rintro ⟨c, -, hc⟩
  split at hc
  · simp at hc
  · split at hc
    · simp at hc
    · exact absurd (List.mem_singleton.mp hc).symm ‹_›

theorem not_mem_cellOrDash (s : String) : '\n' ∉ (cellOrDash s).toList := by
  unfold cellOrDash
  split
  · decide
  · exact not_mem_cell s

theorem oneLine_paramRow (p : Param) : '\n' ∉ (paramRow p).toList := by
  have hflag : '\n' ∉ (if p.required then "Yes" else "No").toList := by
    cases p.required <;> decide
  simp [paramRow, not_mem_cell, not_mem_cellOrDash, hflag]

end RouteBook.Markdown
