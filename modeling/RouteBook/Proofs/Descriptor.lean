import RouteBook.Descriptor
import RouteBook.Proofs.Pairs

/-! The rules that every descriptor keeps, and that reading one from fields makes it keep them. -/
namespace RouteBook

namespace Checked
variable {α β : Type}

theorem map_eq_ok {f : α → β} {x : Checked α} {b : β} :
    f <$> x = .ok b ↔ ∃ a, x = .ok a ∧ f a = b := by
  cases x <;> simp [Functor.map, Checked.map]

theorem seq_eq_ok {f : Checked (α → β)} {x : Checked α} {b : β} :
    f <*> x = .ok b ↔ ∃ g a, f = .ok g ∧ x = .ok a ∧ g a = b := by
  cases f <;> cases x <;> simp [Seq.seq, Checked.seq]

theorem under_eq_ok {step : String} {x : Checked α} {a : α} :
    x.under step = .ok a ↔ x = .ok a := by
  cases x <;> simp [under]

theorem ensure_eq_ok {rule : α → Option String} {x : Checked α} {a : α} :
    x.ensure rule = .ok a ↔ x = .ok a ∧ rule a = none := by
  cases x with
  | fail es => simp [ensure]
  | ok b =>
    cases h : rule b with
    | none =>
      simp only [ensure, h, ok.injEq, iff_self_and]
      rintro rfl
      exact h
    | some reason =>
      simp only [ensure, h, issue, reduceCtorEq, ok.injEq, false_iff, not_and]
      rintro rfl
      simp [h]

end Checked

theorem Method.ofName?_name (m : Method) : ofName? m.name = some m := by cases m <;> decide

structure StatusMap (responses : List (String × String)) : Prop where
  codes : ∀ code ∈ Pairs.keys responses, isStatusCode code = true
  distinct : (Pairs.keys responses).Nodup

theorem StatusMap.nil : StatusMap [] := ⟨by simp [Pairs.keys], by simp [Pairs.keys]⟩

theorem StatusMap.put {m : List (String × String)} (h : StatusMap m) {code : String}
    (hc : isStatusCode code = true) (text : String) : StatusMap (Pairs.put code text m) := by
  refine ⟨?_, Pairs.nodup_keys_put h.distinct code text⟩
  intro k hk
  rw [Pairs.keys_put] at hk
  by_cases hm : code ∈ Pairs.keys m
  · rw [if_pos hm] at hk
    exact h.codes k hk
  · rw [if_neg hm] at hk
    rcases List.mem_append.mp hk with hk | hk
    · exact h.codes k hk
    · rwa [List.mem_singleton.mp hk]

structure Descriptor.Valid (d : Descriptor) : Prop where
  path : d.path ≠ ""
  responses : StatusMap d.responses

namespace Descriptor

theorem pathFault_eq_none {path : String} : pathFault path = none ↔ path ≠ "" := by
  simp [pathFault]

theorem responsesFault_eq_none {responses : List (String × String)} :
    responsesFault responses = none ↔
      ∀ code ∈ Pairs.keys responses, isStatusCode code = true := by
  simp [responsesFault, Pairs.keys, List.find?_eq_none]

theorem check_of_valid {d : Descriptor} (h : d.Valid) : d.check = .ok d := by
  have hp := pathFault_eq_none.mpr h.path
  have hr := responsesFault_eq_none.mpr h.responses.codes
  simp only [check, Checked.ensure, hp, hr]
  rfl

end Descriptor

namespace Field

theorem needed_eq_ok {α : Type} {name : String} {read : Reader α} {fields : Fields} {a : α}
    (h : needed name read fields = .ok a) : ∃ v, read v = .ok a := by
  unfold needed at h
  split at h
  · exact ⟨_, Checked.under_eq_ok.mp h⟩
  · cases h

theorem textMapping_distinct {v : Value} {m : List (String × String)}
    (h : textMapping v = .ok m) : (Pairs.keys m).Nodup := by
  unfold textMapping at h
  split at h
  · obtain ⟨pairs, -, rfl⟩ := Checked.map_eq_ok.mp h
    exact Pairs.nodup_keys_ofList pairs
  · cases h

end Field

theorem Descriptor.valid_of_ofFields {fields : Field.Fields} {d : Descriptor}
    (h : Descriptor.ofFields fields = .ok d) : d.Valid := by
  simp only [Descriptor.ofFields, Checked.seq_eq_ok, Checked.map_eq_ok] at h
  obtain ⟨_, _, ⟨_, _, ⟨_, _, ⟨_, _, ⟨_, responses, ⟨_, _, ⟨_, _, ⟨_, _, ⟨_, _, ⟨_, _, ⟨_, _,
    ⟨_, path, ⟨_, -, rfl⟩, hpath, rfl⟩, -, rfl⟩, -, rfl⟩, -, rfl⟩, -, rfl⟩, -, rfl⟩, -, rfl⟩,
    hresponses, rfl⟩, -, rfl⟩, -, rfl⟩, -, rfl⟩, -, rfl⟩ := h
  obtain ⟨_, hp⟩ := Field.needed_eq_ok hpath
  obtain ⟨_, hr⟩ := Field.needed_eq_ok hresponses
  rw [Checked.ensure_eq_ok] at hp hr
  exact ⟨pathFault_eq_none.mp hp.2,
    responsesFault_eq_none.mp hr.2, Field.textMapping_distinct hr.1⟩

end RouteBook
