import Mathlib.Tactic.IntervalCases
import RouteBook.Json.Printer
import RouteBook.Proofs.Json.Grammar
import RouteBook.Proofs.Value

/-! Printed JSON is a text of the grammar that stands for the value, whatever characters its texts
hold; so reading it gives back the value. -/
namespace RouteBook.Json
open Value (Plain entries)

section Strings

theorem hexDigits_control {n : Nat} (h : n < 32) :
    ∃ a b c d, Text.hexDigits 4 n = [a, b, c, d] ∧ [a, b, c, d].all Text.isHex = true ∧
      Text.hexNumber [a, b, c, d] = n := by
  interval_cases n <;> exact ⟨_, _, _, _, rfl, by decide, by decide⟩

theorem exists_spelling (c : Char) :
    ∃ x : Spelling, x.text = escapeChar c ∧ x.codePoint = c.toNat := by
  unfold escapeChar
  split
  case h_8 hquote hbackslash _ _ _ _ _ =>
    split
    · next hcontrol =>
      obtain ⟨x, y, z, w, hdigits, hall, hn⟩ := hexDigits_control hcontrol
      exact ⟨.code x y z w hall, by rw [hdigits]; rfl, hn⟩
    · next hcontrol => exact ⟨.raw c ⟨by omega, hquote, hbackslash⟩, rfl, rfl⟩
  all_goals exact ⟨.letter _ _ rfl, rfl, rfl⟩

theorem exists_spellings_of_text (s : List Char) : ∃ xs : List Spelling,
    xs.flatMap Spelling.text = s.flatMap escapeChar ∧ codePoints xs = s.map Char.toNat := by
  induction s with
  | nil => exact ⟨[], rfl, rfl⟩
  | cons c s ih =>
    obtain ⟨x, hx, hc⟩ := exists_spelling c
    obtain ⟨xs, hxs, hcs⟩ := ih
    exact ⟨x :: xs, congrArg₂ (· ++ ·) hx hxs, congrArg₂ List.cons hc hcs⟩

theorem joinHalves_toNat (s : List Char) : joinHalves (s.map Char.toNat) = s.map Char.toNat := by
  induction s with
  | nil => rfl
  | cons c s ih =>
    cases s with
    | nil => rfl
    | cons d s =>
      -- A character is no half of a pair.
      have hc : ¬ (0xD800 ≤ c.toNat ∧ c.toNat < 0xDC00 ∧ 0xDC00 ≤ d.toNat ∧ d.toNat < 0xE000) := by
        have hv := c.valid
        simp only [UInt32.isValidChar, Nat.isValidChar, Char.toNat] at hv ⊢
        omega
      rw [List.map_cons, List.map_cons, joinHalves, if_neg hc, ← List.map_cons, ih]

theorem textOf_toNat (s : List Char) : textOf (s.map Char.toNat) = .str (String.ofList s) := by
  have hall : (s.map Char.toNat).all Nat.isValidChar = true := by
    simp only [List.all_map, List.all_eq_true, Function.comp_apply, decide_eq_true_eq]
    exact fun c _ => c.valid
  have hmap : (s.map Char.toNat).map Char.ofNat = s := by
    simp [Function.comp_def, Char.ofNat_toNat]
  rw [textOf, joinHalves_toNat]
  simp only [hall, if_true, hmap]

theorem exists_quotedText (s : String) : ∃ xs : List Spelling,
    quotedText xs = (renderString s).toList ∧ textOf (codePoints xs) = .str s := by
  obtain ⟨xs, htext, hcodes⟩ := exists_spellings_of_text s.toList
  refine ⟨xs, ?_, ?_⟩
  · simp [quotedText, renderString, htext]
  · rw [hcodes, textOf_toNat, String.ofList_toList]

end Strings

section Layout
attribute [local simp] render renderItems renderEntries

def lineGap (depth : Nat) : Gap := ⟨(newline depth).toList, by simp [newline, isSpace]⟩

theorem toList_render_list (depth : Nat) (v : Value) (vs : List Value) :
    (render depth (.list (v :: vs))).toList = '[' :: ((newline (depth + 1)).toList ++
      ((render (depth + 1) v).toList ++ ((renderItems (depth + 1) vs).toList ++
        ((newline depth).toList ++ [']'])))) := by
  simp

theorem toList_renderItems (depth : Nat) (v : Value) (vs : List Value) :
    (renderItems depth (v :: vs)).toList = ',' :: ((newline depth).toList ++
      ((render depth v).toList ++ (renderItems depth vs).toList)) := by
  simp

/-- The text of an entry without the comma that may come before it. -/
def entryText (depth : Nat) (k : String) (v : Value) : List Char :=
  (renderString k).toList ++ ':' :: ' ' :: (render depth v).toList

theorem toList_render_map (depth : Nat) (k : String) (v : Value) (fields : List (String × Value)) :
    (render depth (.map (entries ((k, v) :: fields)))).toList =
      '\x7b' :: ((newline (depth + 1)).toList ++ (entryText (depth + 1) k v ++
        ((renderEntries (depth + 1) (entries fields)).toList ++
          ((newline depth).toList ++ ['\x7d'])))) := by
  simp [entries, entryText, keyText]

theorem toList_renderEntries (depth : Nat) (k : String) (v : Value)
    (fields : List (String × Value)) :
    (renderEntries depth (entries ((k, v) :: fields))).toList =
      ',' :: ((newline depth).toList ++ (entryText depth k v ++
        (renderEntries depth (entries fields)).toList)) := by
  simp [entries, entryText, keyText]

end Layout

section Grammar
variable {v : Value} {items : List Value} {fields : List (String × Value)}

theorem spells_renderItems (depth close : Nat) (v : Value) {vs : List Value}
    (h : ∀ w ∈ v :: vs, Spells true (render depth w).toList w) :
    SpellsItems true ((newline depth).toList ++ ((render depth v).toList ++
      ((renderItems depth vs).toList ++ (newline close).toList))) (v :: vs) := by
  induction vs generalizing v with
  | nil =>
    rw [renderItems, String.toList_empty, List.nil_append]
    exact .last (lineGap depth) (lineGap close) (h v (by simp))
  | cons w vs ih =>
    have hmore := ih w fun u hu => h u (List.mem_cons_of_mem v hu)
    rw [toList_renderItems, List.cons_append, List.append_assoc, List.append_assoc]
    exact .next (lineGap depth) ⟨[], rfl⟩ (h v (by simp)) hmore

theorem spells_renderEntries (depth close : Nat) (k : String) (v : Value)
    (h : ∀ p ∈ (k, v) :: fields, Spells true (render depth p.2).toList p.2) :
    SpellsMembers true ((newline depth).toList ++ (entryText depth k v ++
      ((renderEntries depth (entries fields)).toList ++ (newline close).toList)))
      (entries ((k, v) :: fields)) := by
  induction fields generalizing k v with
  | nil =>
    obtain ⟨key, hkey, htext⟩ := exists_quotedText k
    have hlast := SpellsMembers.last (lineGap depth) key ⟨[], rfl⟩ ⟨[' '], rfl⟩ (lineGap close)
      (h (k, v) (by simp))
    rw [hkey, htext] at hlast
    rw [entries, List.map_nil, renderEntries, String.toList_empty, entryText, List.append_assoc]
    exact hlast
  | cons p fields ih =>
    obtain ⟨key, hkey, htext⟩ := exists_quotedText k
    have hnext := SpellsMembers.next (lineGap depth) key ⟨[], rfl⟩ ⟨[' '], rfl⟩ ⟨[], rfl⟩
      (h (k, v) (by simp)) (ih p.1 p.2 fun q hq => h q (List.mem_cons_of_mem _ hq))
    rw [hkey, htext] at hnext
    rw [toList_renderEntries, entryText]
    simp only [List.cons_append, List.append_assoc]
    exact hnext

theorem spells_list (h : ∀ w ∈ items, ∀ depth, Spells true (render depth w).toList w)
    (depth : Nat) : Spells true (render depth (.list items)).toList (.list items) := by
  cases items with
  | nil =>
    have hrender : (render depth (.list [])).toList = ['[', ']'] := by simp [render]
    rw [hrender]
    exact .emptyList ⟨[], rfl⟩
  | cons v vs =>
    have hitems := spells_renderItems (depth + 1) depth v fun w hw => h w hw (depth + 1)
    rw [toList_render_list]
    simpa only [List.append_assoc] using Spells.list hitems

theorem spells_map (hk : (Pairs.keys fields).Nodup)
    (h : ∀ p ∈ fields, ∀ depth, Spells true (render depth p.2).toList p.2) (depth : Nat) :
    Spells true (render depth (.map (entries fields))).toList (.map (entries fields)) := by
  cases fields with
  | nil =>
    have hrender : (render depth (.map [])).toList = ['\x7b', '\x7d'] := by simp [render]
    rw [entries, List.map_nil, hrender]
    exact .emptyMap ⟨[], rfl⟩
  | cons p fields =>
    have hentries := spells_renderEntries (depth + 1) depth p.1 p.2 fun q hq => h q hq (depth + 1)
    have hmap := Spells.map hentries
    rw [Value.ofList_entries hk] at hmap
    rw [toList_render_map depth p.1 p.2 fields]
    simpa only [List.append_assoc] using hmap

/-- The text of a printed value stands for it at any depth. -/
theorem spells_render (h : Plain v) (depth : Nat) : Spells true (render depth v).toList v := by
  induction h generalizing depth with
  | str s =>
    obtain ⟨xs, htext, hvalue⟩ := exists_quotedText s
    rw [render, ← htext, ← hvalue]
    exact .string xs
  | bool b => cases b <;> exact .word (by simp [render, words])
  | list hi ih => exact spells_list (fun w hw => ih w hw) depth
  | map hk hf ih => exact spells_map hk (fun p hp => ih p hp) depth

/-- A printed value is read back as it was, down to the order of its entries. -/
theorem parse_print (h : Plain v) : parse (print v).toList = .ok v := by
  have htext : (print v).toList = (render 0 v).toList ++ ['\n'] := by simp [print]
  exact parse_eq_ok_iff.mpr ⟨⟨[], rfl⟩, ⟨['\n'], rfl⟩, _, htext, spells_render h 0⟩

end Grammar

end RouteBook.Json
