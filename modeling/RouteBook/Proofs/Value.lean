import RouteBook.Proofs.Pairs
import RouteBook.Value.Basic

/-! Plain values, of which documents are made: texts, truth values, lists, and mappings whose keys
are texts that all differ. -/
namespace RouteBook.Value

def entries (fields : List (String × Value)) : List (Value × Value) :=
  fields.map fun p => (.str p.1, p.2)

inductive Plain : Value → Prop
  | str (s : String) : Plain (.str s)
  | bool (b : Bool) : Plain (.bool b)
  | list {items : List Value} : (∀ v ∈ items, Plain v) → Plain (.list items)
  | map {fields : List (String × Value)} : (Pairs.keys fields).Nodup →
      (∀ p ∈ fields, Plain p.2) → Plain (.map (entries fields))

theorem entries_injective : Function.Injective entries :=
  List.map_injective_iff.mpr fun p q h => by
    simp only [Prod.mk.injEq, str.injEq] at h
    exact Prod.ext h.1 h.2

theorem Plain.fields {fields : List (String × Value)} (h : Plain (.map (entries fields))) :
    (Pairs.keys fields).Nodup ∧ ∀ f ∈ fields, Plain f.2 := by
  generalize hes : entries fields = es at h
  cases h with
  | map hd hp =>
    obtain rfl := entries_injective hes
    exact ⟨hd, hp⟩

theorem str_beq (s t : String) : ((.str s : Value) == .str t) = (s == t) := by
  simp [BEq.beq, sameKey]

theorem get?_entries (name : String) (fields : List (String × Value)) :
    Pairs.get? (.str name) (entries fields) = Pairs.get? name fields := by
  induction fields with
  | nil => rfl
  | cons p fields ih =>
    by_cases hp : p.1 = name
    · simp [entries, Pairs.get?, str_beq, hp]
    · simpa [entries, Pairs.get?, str_beq, hp] using ih

theorem put_entries (k : String) (v : Value) (fields : List (String × Value)) :
    Pairs.put (.str k) v (entries fields) = entries (Pairs.put k v fields) := by
  induction fields with
  | nil => rfl
  | cons f fields ih =>
    have hcons : entries (f :: fields) = (.str f.1, f.2) :: entries fields := rfl
    by_cases hf : f.1 = k
    · simp [hcons, Pairs.put, str_beq, hf]
      rfl
    · simp [hcons, Pairs.put, str_beq, hf, ih]
      rfl

theorem update_entries (m fields : List (String × Value)) :
    Pairs.update (entries m) (entries fields) = entries (Pairs.update m fields) := by
  induction fields generalizing m with
  | nil => rfl
  | cons f fields ih =>
    change Pairs.update (Pairs.put (.str f.1) f.2 (entries m)) (entries fields) = _
    rw [put_entries, ih]
    rfl

theorem ofList_entries {fields : List (String × Value)} (h : (Pairs.keys fields).Nodup) :
    Pairs.ofList (entries fields) = entries fields := by
  refine Pairs.ofList_of_distinct ?_
  rw [entries, List.pairwise_map]
  refine (List.pairwise_map.mp h).imp fun hne => ?_
  rw [str_beq]
  exact beq_eq_false_iff_ne.mpr hne

mutual
/-- Whether the texts of a value satisfy one condition and its keys another. -/
def every (text key : String → Bool) : Value → Bool
  | .str s => text s
  | .list items => everyItem text key items
  | .map entries => everyEntry text key entries
  | _ => true
def everyItem (text key : String → Bool) : List Value → Bool
  | [] => true
  | v :: rest => every text key v && everyItem text key rest
def everyEntry (text key : String → Bool) : List (Value × Value) → Bool
  | [] => true
  | (k, v) :: rest => every key key k && every text key v && everyEntry text key rest
end

section Every
variable {text key text' key' : String → Bool}

theorem everyItem_iff {items : List Value} :
    everyItem text key items = true ↔ ∀ v ∈ items, v.every text key = true := by
  induction items with
  | nil => simp [everyItem]
  | cons v items ih => simp [everyItem, ih]

theorem everyEntry_iff {fields : List (String × Value)} :
    everyEntry text key (entries fields) = true ↔
      ∀ f ∈ fields, key f.1 = true ∧ f.2.every text key = true := by
  induction fields with
  | nil => simp [entries, everyEntry]
  | cons f fields ih =>
    have hcons : entries (f :: fields) = (.str f.1, f.2) :: entries fields := rfl
    simp [hcons, everyEntry, every, ih]

theorem every_and_iff {v : Value} (h : Plain v) :
    v.every (fun s => text s && text' s) (fun k => key k && key' k) = true ↔
      v.every text key = true ∧ v.every text' key' = true := by
  induction h with
  | str s => simp [every]
  | bool b => simp [every]
  | list _ ih =>
    simp only [every, everyItem_iff, ← forall₂_and]
    exact forall₂_congr ih
  | map _ _ ih =>
    simp only [every, everyEntry_iff, ← forall₂_and]
    refine forall₂_congr fun f hf => ?_
    rw [ih f hf, Bool.and_eq_true]
    tauto

end Every

/-- Collections stand at most so deep in one another. -/
inductive Within : Nat → Value → Prop
  | str (m : Nat) (s : String) : Within m (.str s)
  | bool (m : Nat) (b : Bool) : Within m (.bool b)
  | list {m : Nat} {items : List Value} : (∀ v ∈ items, Within m v) → Within (m + 1) (.list items)
  | map {m : Nat} {entries : List (Value × Value)} : (∀ e ∈ entries, Within m e.2) →
      Within (m + 1) (.map entries)

theorem Within.fields {m : Nat} {fields : List (String × Value)}
    (h : Within (m + 1) (.map (entries fields))) : ∀ f ∈ fields, Within m f.2 := by
  intro f hf
  cases h with
  | map hm => exact hm (.str f.1, f.2) (List.mem_map.mpr ⟨f, hf, rfl⟩)

end RouteBook.Value
