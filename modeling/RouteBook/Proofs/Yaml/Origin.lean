import RouteBook.Proofs.Yaml.Fault
import RouteBook.Proofs.Yaml.Refusal

/-! Where the fault of a text that does not load comes from: it breaks a rule of the format, one of
its escapes stands for no character, a version has too many digits, or a part of its document has no
value. -/
namespace RouteBook.Yaml
open Outcome (Meets)

/-- The faults of a text that cannot be cut into tokens: it breaks a rule of the format, a version
has too many digits, or an escape stands for no character. -/
def LoadError.isTextual : LoadError → Bool
  | .malformed | .badNumber | .escapeOutOfRange | .escapeTooLarge => true
  | _ => false

namespace Scan
variable {α β : Type} {s : Scan} {c : Cursor}

/-- A step of the scanner that fails only with a fault of the text. -/
abbrev Textual (P : α → Prop) (r : Except LoadError α) : Prop := Meets (·.isTextual) P r

/-- Whatever a part of the text gives, what follows fails only with a fault of the text. -/
theorem Textual.part {P : β → Prop} {r : Except LoadError α} {f : α → Except LoadError β}
    (h : Textual (fun _ => True) r) (hf : ∀ a, Textual P (f a)) : Textual P (r >>= f) :=
  Meets.bind h fun a _ => hf a

theorem textual_malformed {P : α → Prop} : Textual P (.error .malformed) := rfl

theorem textual_ok (a : α) : Textual (fun _ => True) (.ok a) := trivial

theorem textual_anchorName (c : Cursor) : Textual (fun _ => True) (anchorName c) := by
  unfold anchorName
  dsimp only
  split_ifs
  · exact textual_malformed
  · exact textual_ok _
  · exact textual_malformed

theorem textual_percentBytes (s : List Char) : Textual (fun _ => True) (percentBytes s) := by
  fun_induction percentBytes s with
  | case1 a b rest x hx y hy ih => exact ih.part fun _ => textual_ok _
  | case2 => exact textual_malformed
  | case3 => exact textual_malformed
  | case4 => exact textual_ok _

theorem textual_uriParts (fuel : Nat) (c : Cursor) : Textual (fun _ => True) (uriParts fuel c) := by
  induction fuel generalizing c with
  | zero => exact textual_ok _
  | succ fuel ih =>
    unfold uriParts
    split
    · refine (textual_percentBytes _).part fun p => ?_
      dsimp only
      split
      · exact textual_malformed
      · exact (ih _).part fun _ => textual_ok _
    · dsimp only
      split
      · exact textual_ok _
      · exact (ih _).part fun _ => textual_ok _

theorem textual_tagUri (c : Cursor) : Textual (fun _ => True) (tagUri c) := by
  refine (textual_uriParts _ c).part fun p => ?_
  dsimp only
  split
  · exact textual_malformed
  · exact textual_ok _

theorem textual_tagHandle (c : Cursor) : Textual (fun _ => True) (tagHandle c) := by
  unfold tagHandle
  split_ifs
  · exact textual_malformed
  · exact textual_ok _
  · dsimp only
    split
    · exact textual_ok _
    · exact textual_malformed

theorem textual_tag (c : Cursor) : Textual (fun _ => True) (tag c) := by
  have hend (value : Option String × String) (d : Cursor) : Textual (fun _ => True)
      (if (d.peek == ' ' || d.atLineEnd) = true then
        Except.ok (value, d) else .error .malformed) := by
    split
    · exact textual_ok _
    · exact textual_malformed
  unfold tag
  dsimp only
  split
  · refine (textual_tagUri _).part fun p => ?_
    split
    · exact hend _ _
    · exact textual_malformed
  · split
    · exact hend _ _
    · split
      · exact (textual_tagHandle _).part fun p => (textual_tagUri _).part fun q => hend _ _
      · exact (textual_tagUri _).part fun q => hend _ _

theorem textual_quotedBreaks (fuel : Nat) (c : Cursor) :
    Textual (fun _ => True) (quotedBreaks fuel c) := by
  induction fuel generalizing c with
  | zero => exact textual_ok _
  | succ fuel ih =>
    unfold quotedBreaks
    split_ifs
    · exact textual_malformed
    · dsimp only
      split
      · exact (ih _).part fun _ => textual_ok _
      · exact textual_ok _

theorem textual_escape (c : Cursor) : Textual (fun _ => True) (escape c) := by
  unfold escape
  split
  · exact textual_malformed
  · split
    · exact textual_ok _
    · split
      · dsimp only
        split
        · split
          · exact textual_ok _
          · rfl
          · rfl
        · exact textual_malformed
      · split
        · exact (textual_quotedBreaks _ _).part fun _ => textual_ok _
        · exact textual_malformed

theorem textual_quotedSpaces (c : Cursor) : Textual (fun _ => True) (quotedSpaces c) := by
  unfold quotedSpaces
  dsimp only
  split
  · exact textual_malformed
  · split
    · exact (textual_quotedBreaks _ _).part fun _ => textual_ok _
    · exact textual_ok _

theorem textual_quotedBody (double : Bool) (fuel : Nat) (c : Cursor) :
    Textual (fun _ => True) (quotedBody double fuel c) := by
  induction fuel generalizing c with
  | zero => exact textual_malformed
  | succ fuel ih =>
    have hmore (codes : List Nat) (d : Cursor) : Textual (fun _ => True)
        (quotedBody double fuel d >>= fun p => pure (codes ++ p.1, p.2)) :=
      (ih d).part fun _ => textual_ok _
    unfold quotedBody
    dsimp only
    split
    · exact textual_malformed
    · split_ifs
      · exact textual_ok _
      · exact hmore _ _
      · exact textual_ok _
      · exact (textual_escape _).part fun _ => hmore _ _
      · exact (textual_quotedSpaces _).part fun _ => hmore _ _
      · exact hmore _ _

theorem textual_block (indent : Int) (c : Cursor) : Textual (fun _ => True) (block indent c) := by
  refine Textual.part ?_ fun p => textual_ok _
  have hend (k : Chomp) (n : Option Nat) (d : Cursor) : Textual (fun _ => True)
      (if (!(d.peek == ' ' || d.atLineEnd)) = true then .error .malformed
        else if d.skipSpaces.skipComment.atLineEnd = true then
          Except.ok ((k, n), d.skipSpaces.skipComment.lineBreak.2) else .error .malformed) := by
    split
    · exact textual_malformed
    · split
      · exact textual_ok _
      · exact textual_malformed
  have hdigit (d : Cursor) : Textual (fun _ => True) (if d.peek.isDigit = true then
      if (d.peek == '0') = true then .error .malformed
      else Except.ok (some (d.peek.toNat - 48), d.next) else .ok (none, d)) := by
    split
    · split
      · exact textual_malformed
      · exact textual_ok _
    · exact textual_ok _
  unfold blockHeader
  dsimp only
  split
  · exact (hdigit _).part fun _ => hend _ _ _
  · refine (hdigit _).part fun _ => ?_
    split
    · exact hend _ _ _
    · exact hend _ _ _

theorem textual_directiveBody (c : Cursor) : Textual (fun _ => True) (directiveBody c) := by
  have hnumber (c : Cursor) : Textual (fun _ => True) (directiveNumber c) := by
    unfold directiveNumber
    dsimp only
    split_ifs
    · exact textual_malformed
    · rfl
    · exact textual_ok _
  unfold directiveBody
  dsimp only
  split
  · exact textual_malformed
  · split
    · refine (hnumber _).part fun p => ?_
      split
      · exact textual_malformed
      · refine (hnumber _).part fun p => ?_
        split
        · exact textual_ok _
        · exact textual_malformed
    · refine (textual_tagHandle _).part fun p => ?_
      split
      · exact textual_malformed
      · refine (textual_tagUri _).part fun p => ?_
        split
        · exact textual_ok _
        · exact textual_malformed
    · exact textual_ok _

def Clear (s : Scan) : Prop := ∀ e, .fault e ∉ s.tokens

theorem Clear.push (h : Clear s) {t : Token} (ht : ∀ e, t ≠ .fault e) : Clear (s.push t) := by
  intro e he
  rcases Array.mem_push.mp he with he | he
  · exact h e he
  · exact ht e he.symm

theorem Clear.insert {T : Array Token} {t : Token} (h : ∀ e, .fault e ∉ T)
    (ht : ∀ e, t ≠ .fault e) (n : Nat) : ∀ e, .fault e ∉ T.insertIdxIfInBounds n t := by
  intro e he
  unfold Array.insertIdxIfInBounds at he
  split at he
  · rcases Array.mem_insertIdx.mp he with he | he
    · exact ht e he.symm
    · exact h e he
  · exact h e he

theorem Clear.unwind (h : Clear s) (column : Int) : Clear (s.unwind column) := by
  unfold Scan.unwind
  split
  · exact h
  · intro e he
    rcases Array.mem_append.mp he with he | he
    · exact h e he
    · simp at he

theorem textual_dropKey (h : Clear s) : Textual Clear s.dropKey := by
  unfold dropKey
  split
  · exact textual_malformed
  · exact h

theorem textual_saveKey (h : Clear s) : Textual Clear s.saveKey := by
  unfold saveKey
  split
  · exact (textual_dropKey h).bind fun _ h => h
  · exact h

theorem textual_openFor (h : Clear s) {t : Token} (ht : ∀ e, t ≠ .fault e) :
    Textual Clear (s.openFor t) := by
  unfold openFor
  split_ifs
  · exact h
  · exact textual_malformed
  · unfold open?
    split_ifs
    · exact Clear.push h ht
    · exact h

theorem textual_ready (h : Clear s) : Textual Clear s.ready := by
  have htokens (fuel : Nat) : (toNextToken fuel s).tokens = s.tokens := by
    induction fuel generalizing s with
    | zero => rfl
    | succ fuel ih =>
      unfold toNextToken
      dsimp only
      split
      · exact ih h
      · rfl
  refine Meets.bind (P := Clear) ?_ fun s h => h.unwind _
  unfold dropStale
  dsimp only
  split
  · exact textual_malformed
  · intro e he
    rw [htokens] at he
    exact h e he

theorem textual_directive (h : Clear s) : Textual Clear s.directive := by
  refine (textual_dropKey (h.unwind _)).bind fun s h => (textual_directiveBody _).part fun p => ?_
  dsimp only
  split
  · exact Clear.push h (by simp)
  · exact textual_malformed

theorem textual_value (h : Clear s) : Textual Clear s.value := by
  unfold value
  split
  · next k hk =>
    have hkey : ∀ e, .fault e ∉ s.tokens.insertIdxIfInBounds k.place .key :=
      Clear.insert h (by simp) _
    dsimp only
    refine Clear.push ?_ (by simp)
    split
    · exact hkey
    · unfold open?
      split_ifs
      · exact Clear.insert hkey (by simp) _
      · exact hkey
  · refine (textual_openFor h (by simp)).bind fun s h => ?_
    exact (textual_dropKey (s := { s with allowKey := s.flowLevel == 0 }) h).bind fun s h =>
      Clear.push h (by simp)

theorem ofCodes_ne_fault (codes : List Nat) (e : LoadError) : Token.ofCodes codes ≠ .fault e := by
  unfold Token.ofCodes
  split <;> simp

/-- A token at a time, the tokens stay clear of faults, and the scanner fails with a fault of the
text. -/
theorem textual_takeToken (h : Clear s) : Textual Clear s.takeToken := by
  have hmark (t : Token) (ht : ∀ e, t ≠ .fault e) : Textual Clear (s.documentMark t) :=
    (textual_dropKey (h.unwind _)).bind fun s h => Clear.push h ht
  have hopen (t : Token) (ht : ∀ e, t ≠ .fault e) : Textual Clear (s.flowOpen t) :=
    (textual_saveKey h).bind fun s h => Clear.push h ht
  have hclose (t : Token) (ht : ∀ e, t ≠ .fault e) : Textual Clear (s.flowClose t) :=
    (textual_dropKey h).bind fun s h => Clear.push h ht
  have hnamed (make : String → Token) (ht : ∀ n e, make n ≠ .fault e) :
      Textual Clear (s.named make) :=
    (textual_saveKey h).bind fun s h => (textual_anchorName _).part fun p => Clear.push h (ht _)
  have hentry : Textual Clear s.flowEntry :=
    (textual_dropKey h).bind fun s h => Clear.push h (by simp)
  have hitem : Textual Clear s.blockEntry :=
    (textual_openFor h (by simp)).bind fun s h => (textual_dropKey h).bind fun s h =>
      Clear.push h (by simp)
  have hkey : Textual Clear s.explicitKey :=
    (textual_openFor h (by simp)).bind fun s h => (textual_dropKey h).bind fun s h =>
      Clear.push h (by simp)
  have htag : Textual Clear s.tagged :=
    (textual_saveKey h).bind fun s h => (textual_tag _).part fun p => Clear.push h (by simp)
  have hblock : Textual Clear s.blockScalar :=
    (textual_dropKey h).bind fun s h => (textual_block _ _).part fun p => Clear.push h (by simp)
  have hquoted : Textual Clear s.quotedScalar :=
    (textual_saveKey h).bind fun s h => (textual_quotedBody _ _ _).part fun p =>
      Clear.push h (ofCodes_ne_fault _)
  have hbare : Textual Clear s.bareScalar :=
    (textual_saveKey h).bind fun s h => Clear.push h (by simp)
  have hend : Textual Clear s.streamEnd :=
    (textual_dropKey (h.unwind _)).bind fun s h => Clear.push h (by simp)
  unfold takeToken
  dsimp only
  refine .ite hend (.ite (textual_directive h) (.ite (hmark _ (by simp)) (.ite (hmark _ (by simp))
    (.ite (hopen _ (by simp)) (.ite (hopen _ (by simp)) (.ite (hclose _ (by simp))
    (.ite (hclose _ (by simp)) (.ite hentry (.ite hitem (.ite hkey (.ite (textual_value h)
    (.ite (hnamed _ (by simp)) (.ite (hnamed _ (by simp)) (.ite htag (.ite hblock (.ite hquoted
    (.ite hbare textual_malformed)))))))))))))))))

theorem textual_run {e : LoadError} (h : Clear s) (fuel : Nat) (he : .fault e ∈ run fuel s) :
    e.isTextual = true := by
  induction fuel generalizing s with
  | zero =>
    rcases Array.mem_push.mp he with he | he
    · exact absurd he (h e)
    · cases he
      rfl
  | succ fuel ih =>
    have hstep : Textual Clear s.step := (textual_ready h).bind fun s h => textual_takeToken h
    unfold run at he
    split at he
    · exact absurd he (h e)
    · cases hs : s.step with
      | ok t =>
        rw [hs] at hstep he
        exact ih hstep he
      | error e' =>
        rw [hs] at hstep he
        rcases Array.mem_push.mp he with he | he
        · have hmem : .fault e ∈ s.tokens.toList.take s.settled := by
            simpa using Array.mem_toList_iff.mpr he
          exact absurd (Array.mem_toList_iff.mp (List.mem_of_mem_take hmem)) (h e)
        · cases he
          exact hstep

end Scan

/-- A fault among the tokens is one of the text. -/
theorem textual_of_mem_scan {e : LoadError} {text : List Char} (h : .fault e ∈ Token.scan text) :
    e.isTextual = true := by
  unfold Token.scan at h
  split at h
  · exact Scan.textual_run (fun e => by simp) _ (Array.mem_toList_iff.mp h)
  · obtain rfl : e = .malformed := by simpa using h
    rfl

/-- A text that does not load breaks a rule of the format, cannot be cut into tokens, or has a
document with a part that has no value. -/
theorem origin_of_load {text : List Char} {e : LoadError} (h : load text = .error e) :
    e = .malformed ∨ .fault e ∈ Token.scan text ∨
      ∃ node, Node.ofTokens? (Token.scan text) = .ok (some node) ∧ node.Refuses e := by
  unfold load at h
  cases hn : Node.ofTokens? (Token.scan text) with
  | error e' =>
    rw [hn] at h
    cases h
    exact (Node.malformed_or_mem_of_ofTokens? hn).imp_right .inl
  | ok node? =>
    rw [hn] at h
    cases node? with
    | none => cases h
    | some node => exact (fault_of_build h).imp_right fun hr => .inr ⟨node, rfl, hr⟩

-- The day is looked at before it is found that the text above is no mapping.
example : (load "a: !!map x\nb: 2024-02-30".toList).map (fun _ => ()) = .error .badNumber := by
  decide +kernel

-- An escape is read before it is found that the name stands for nothing.
example : (load "*x \"\\U80000000\"".toList).map (fun _ => ()) = .error .escapeTooLarge := by
  decide +kernel

/-- A fault that is none of the format is one of the text, or that of a part without value. -/
theorem origin_of_stray {text : List Char} {e : LoadError} (h : load text = .error e)
    (he : e ≠ .malformed) :
    (.fault e ∈ Token.scan text ∧ (e = .badNumber ∨ e = .escapeOutOfRange ∨ e = .escapeTooLarge)) ∨
      ∃ node, Node.ofTokens? (Token.scan text) = .ok (some node) ∧ node.Refuses e := by
  rcases origin_of_load h with hm | hs | hr
  · exact absurd hm he
  · have hkind := textual_of_mem_scan hs
    exact .inl ⟨hs, by cases e <;> simp_all [LoadError.isTextual]⟩
  · exact .inr hr

end RouteBook.Yaml
