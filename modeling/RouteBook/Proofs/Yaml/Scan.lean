import RouteBook.Proofs.Yaml.Style
import RouteBook.Yaml.Token.Reader

/-! How the scanner goes from token to token: the blanks and line ends before a token, the blocks
that end there, and runs of steps. -/
namespace RouteBook.Yaml.Scan
variable {s s' : Scan} {c : Cursor} {T : List Token} {i j column : Int} {below : List Int}
  {a : Bool} {next : List Char} {k fuel : Nat}

def idle (c : Cursor) (T : List Token) (i : Int) (below : List Int) (a : Bool) : Scan :=
  { cursor := c, tokens := T.toArray, indent := i, indents := below, allowKey := a }

@[simp] theorem cursor_idle : (idle c T i below a).cursor = c := rfl
@[simp] theorem flowLevel_idle : (idle c T i below a).flowLevel = 0 := rfl
@[simp] theorem tokens_idle : (idle c T i below a).tokens = T.toArray := rfl

structure Starts (next : List Char) : Prop where
  first : firstIs (fun ch => ch == ' ' || ch == '#' || !isInline ch) next = false
  marker : isMarker next = false

theorem Starts.gap (h : Starts next) :
    firstIs (fun ch => ch == ' ' || isNewline ch) next = false := by
  cases next with
  | nil => rfl
  | cons ch next =>
    have hfirst := h.first
    simp only [firstIs, isInline, Bool.or_eq_false_iff, Bool.not_eq_false', Bool.and_eq_true,
      Bool.not_eq_true'] at hfirst
    simp [firstIs, hfirst.1.1, hfirst.2.1]

theorem Starts.blank (h : Starts next) : firstIs (· == ' ') next = false := by
  cases next with
  | nil => rfl
  | cons ch next =>
    have hgap := h.gap
    simp only [firstIs, Bool.or_eq_false_iff] at hgap
    exact hgap.1

theorem Starts.marker_line (h : Starts next) (k : Nat) :
    isMarker (List.replicate k ' ' ++ next) = false := by
  cases k with
  | zero => exact h.marker
  | succ k => exact isMarker_of_first (by simp [List.replicate_succ, firstIs])

theorem arrived (h : c.rest = next) (hs : Starts next) :
    c.skipComment = c ∧ (!c.atEnd && isNewline c.peek) = false := by
  cases next with
  | nil => simp [Cursor.skipComment, Cursor.atEnd, Cursor.peek, h]
  | cons ch next =>
    have hfirst := hs.first
    simp only [firstIs, isInline, Bool.or_eq_false_iff, Bool.not_eq_false', Bool.and_eq_true,
      Bool.not_eq_true'] at hfirst
    simp [Cursor.skipComment, Cursor.peek_cons h, hfirst]

theorem toNextToken_blanks (h : s.cursor.rest = List.replicate k ' ' ++ next) (hs : Starts next)
    (hf : 0 < fuel) : toNextToken fuel s = { s with cursor := s.cursor.skip k } := by
  obtain ⟨fuel, rfl⟩ : ∃ f, fuel = f + 1 := ⟨fuel - 1, by omega⟩
  have hskip := Cursor.skipSpaces_blanks h hs.blank
  have hrest : (s.cursor.skip k).rest = next := by simp [Cursor.rest_skip, h]
  obtain ⟨hcomment, hend⟩ := arrived hrest hs
  simp [toNextToken, hskip, hcomment, hend]

theorem toNextToken_line (h : s.cursor.rest = '\n' :: (List.replicate k ' ' ++ next))
    (hs : Starts next) (hl : s.flowLevel = 0) (hf : 1 < fuel) :
    toNextToken fuel s = { s with cursor := s.cursor.skip (k + 1), allowKey := true } := by
  obtain ⟨fuel, rfl⟩ : ∃ f, fuel = f + 1 := ⟨fuel - 1, by omega⟩
  have hskip : s.cursor.skipSpaces = s.cursor := Cursor.skipWhile_none (by simp [h, firstIs])
  have hcomment : s.cursor.skipComment = s.cursor := by
    simp [Cursor.skipComment, Cursor.peek_cons h]
  have hrest : s.cursor.next.rest = List.replicate k ' ' ++ next := by
    rw [Cursor.rest_next, h]
    rfl
  have hstep : toNextToken (fuel + 1) s =
      toNextToken fuel { s with cursor := s.cursor.next, allowKey := true } := by
    simp [toNextToken, hskip, hcomment, Cursor.atEnd_cons h, Cursor.peek_cons h, isNewline, isBreak,
      Cursor.lineBreak_lineFeed h, hl]
  rw [hstep, toNextToken_blanks hrest hs (by omega), Cursor.skip_succ]

/-- The keys that are near stay, where no other one has to be a key. -/
theorem dropStale_eq_filter (h : ∀ key ∈ s.keys, key.2.required = true →
    key.2.line = s.cursor.line ∧ s.cursor.index - key.2.index ≤ keyReach) :
    s.dropStale = .ok { s with keys := s.keys.filter fun key => !(key.2.line != s.cursor.line ||
      decide (keyReach < s.cursor.index - key.2.index)) } := by
  have hany : (s.keys.any fun key => (key.2.line != s.cursor.line ||
      decide (keyReach < s.cursor.index - key.2.index)) && key.2.required) = false := by
    rw [List.any_eq_false]
    intro key hkey
    cases hr : key.2.required with
    | false => simp
    | true => simpa using h key hkey hr
  simp only [dropStale, hany, Bool.false_eq_true, if_false]

def Forgotten (line : Nat) (keys : List (Nat × KeyStart)) : Prop :=
  ∀ key ∈ keys, key.2.required = false ∧ key.2.line ≠ line

theorem dropStale_forgotten (h : Forgotten s.cursor.line s.keys) :
    s.dropStale = .ok { s with keys := [] } := by
  rw [dropStale_eq_filter fun key hkey hr => absurd hr (by simp [(h key hkey).1])]
  rw [List.filter_eq_nil_iff.mpr]
  intro key hkey
  simp [(h key hkey).2]

theorem dropStale_near (h : ∀ key ∈ s.keys, key.2.line = s.cursor.line ∧
    s.cursor.index - key.2.index ≤ keyReach) : s.dropStale = .ok s := by
  rw [dropStale_eq_filter fun key hkey _ => h key hkey]
  rw [List.filter_eq_self.mpr]
  intro key hkey
  simpa using h key hkey

/-- The keys of the other levels stay, where that of this level does not have to be a key. -/
theorem dropKey_eq_filter
    (h : ∀ key ∈ s.keys, key.1 = s.flowLevel → key.2.required = false) :
    s.dropKey = .ok { s with keys := s.keys.filter fun key => key.1 != s.flowLevel } := by
  have hany : (s.keys.any fun key => key.1 == s.flowLevel && key.2.required) = false := by
    rw [List.any_eq_false]
    intro key hkey
    simpa using h key hkey
  simp only [dropKey, hany, Bool.false_eq_true, if_false]

theorem dropKey_other (h : ∀ key ∈ s.keys, key.1 ≠ s.flowLevel) : s.dropKey = .ok s := by
  rw [dropKey_eq_filter fun key hkey he => absurd he (h key hkey)]
  rw [List.filter_eq_self.mpr]
  intro key hkey
  simpa using h key hkey

theorem unwind_of_le (hl : s.flowLevel = 0) (h : s.indent ≤ column) : s.unwind column = s := by
  have hnot : ¬ column < s.indent := by omega
  cases s
  simp_all [unwind]

theorem unwind_close (h : column < i) : (idle c T i (j :: below) a).unwind column =
    (idle c (T ++ [.blockEnd]) j below a).unwind column := by
  simp only [unwind, idle, bne_self_eq_false, Bool.false_eq_true, if_false]
  rw [List.takeWhile_cons_of_pos (by simpa using h)]
  simp [Array.replicate_succ']

/-- The next step of the scanner is that of another state, once the blocks that end are closed. -/
structure Rests (s t : Scan) : Prop where
  active : s.done = false
  ready : s.ready = .ok (t.unwind t.cursor.column)
  rest : t.cursor.rest.length ≤ s.cursor.rest.length
  tokens : .streamEnd ∈ t.tokens → .streamEnd ∈ s.tokens

theorem Rests.close (h : Rests s (idle c T i (j :: below) a)) (hc : (c.column : Int) < i) :
    Rests s (idle c (T ++ [.blockEnd]) j below a) := by
  refine ⟨h.active, ?_, h.rest, fun ht => h.tokens (by simpa [idle] using ht)⟩
  rw [h.ready]
  exact congrArg Except.ok (unwind_close hc)

def holding (c : Cursor) (T : List Token) (i : Int) (below : List Int) (a : Bool)
    (keys : List (Nat × KeyStart)) : Scan :=
  { idle c T i below a with keys := keys }

theorem rests_blanks {keys : List (Nat × KeyStart)} (h : c.rest = List.replicate k ' ' ++ next)
    (hs : Starts next) (hk : Forgotten (c.skip k).line keys) :
    Rests (holding c T i below a keys) (idle (c.skip k) T i below a) := by
  refine ⟨rfl, ?_, ?_, id⟩
  · have hfront := toNextToken_blanks (s := holding c T i below a keys) h hs
      (Nat.succ_pos c.rest.length)
    rw [ready]
    change (toNextToken c.rest.length.succ (holding c T i below a keys)).dropStale >>= _ = _
    rw [hfront, dropStale_forgotten hk]
    rfl
  · change (c.skip k).rest.length ≤ c.rest.length
    rw [Cursor.rest_skip, List.length_drop]
    exact Nat.sub_le _ _

theorem rests_line {keys : List (Nat × KeyStart)}
    (h : c.rest = '\n' :: (List.replicate k ' ' ++ next)) (hs : Starts next)
    (hk : Forgotten (c.skip (k + 1)).line keys) :
    Rests (holding c T i below a keys) (idle (c.skip (k + 1)) T i below true) := by
  refine ⟨rfl, ?_, ?_, id⟩
  · have hlen : 1 < c.rest.length.succ := by simp [h]
    have hfront := toNextToken_line (s := holding c T i below a keys) h hs rfl hlen
    rw [ready]
    change (toNextToken c.rest.length.succ (holding c T i below a keys)).dropStale >>= _ = _
    rw [hfront, dropStale_forgotten hk]
    rfl
  · change (c.skip (k + 1)).rest.length ≤ c.rest.length
    rw [Cursor.rest_skip, List.length_drop]
    exact Nat.sub_le _ _

/-- One step that takes in a token other than the last. -/
structure Advances (s s' : Scan) : Prop where
  active : s.done = false
  step : s.step = .ok s'
  rest : s'.cursor.rest.length < s.cursor.rest.length
  tokens : .streamEnd ∈ s'.tokens → .streamEnd ∈ s.tokens

theorem Rests.step (h : Rests s (idle c T i below a)) (hi : i ≤ c.column) :
    s.step = (idle c T i below a).takeToken := by
  rw [Scan.step, h.ready]
  exact congrArg takeToken (unwind_of_le rfl hi)

theorem Rests.advances (h : Rests s (idle c T i below a)) (hi : i ≤ c.column)
    (ht : (idle c T i below a).takeToken = .ok s')
    (hr : s'.cursor.rest.length < c.rest.length) (hend : .streamEnd ∈ s'.tokens → .streamEnd ∈ T) :
    Advances s s' := by
  refine ⟨h.active, (h.step hi).trans ht, lt_of_lt_of_le hr h.rest, fun hm => h.tokens ?_⟩
  simpa [idle] using hend hm

/-- Steps lead from a state to one with a certain property. -/
inductive Leads (Q : Scan → Prop) : Scan → Prop
  | here {s : Scan} : Q s → Leads Q s
  | next {s s' : Scan} : Advances s s' → Leads Q s' → Leads Q s

theorem Leads.bind {Q R : Scan → Prop} (h : Leads Q s) (hr : ∀ s', Q s' → Leads R s') :
    Leads R s := by
  induction h with
  | here hq => exact hr _ hq
  | next hstep _ ih => exact .next hstep ih

/-- The scanner cannot go on. -/
def Stuck (s : Scan) : Prop := s.done = false ∧ ∃ e, s.step = .error e

/-- A property under a condition without which the scanner is stuck. -/
def Unless (ok : Bool) (Q : Scan → Prop) (s : Scan) : Prop := if ok then Q s else Stuck s

theorem Leads.then {p q : Bool} {Q R : Scan → Prop} (h : Leads (Unless p Q) s)
    (hr : ∀ s', Q s' → Leads (Unless q R) s') : Leads (Unless (p && q) R) s := by
  refine h.bind fun s' hq => ?_
  cases p with
  | true => exact hr s' hq
  | false => exact .here hq

theorem Leads.weaken {p : Bool} {Q R : Scan → Prop} (h : Leads (Unless p Q) s)
    (hr : ∀ s', Q s' → R s') : Leads (Unless p R) s := by
  refine h.bind fun s' hq => .here ?_
  cases p with
  | true => exact hr s' hq
  | false => exact hq

/-- A run of steps takes no more fuel than characters. -/
theorem run_of_leads {Q : Scan → Prop} (h : Leads Q s) :
    ∃ s' m, Q s' ∧ m + s'.cursor.rest.length ≤ s.cursor.rest.length ∧
      (.streamEnd ∈ s'.tokens → .streamEnd ∈ s.tokens) ∧
      ∀ fuel, run (fuel + m) s = run fuel s' := by
  induction h with
  | @here s hq => exact ⟨s, 0, hq, by omega, id, fun _ => rfl⟩
  | @next s s₁ hstep _ ih =>
    obtain ⟨s', m, hq, hrest, htokens, hrun⟩ := ih
    have hshort := hstep.rest
    refine ⟨s', m + 1, hq, by omega, hstep.tokens ∘ htokens, fun fuel => ?_⟩
    have hfirst : run (fuel + m + 1) s = run (fuel + m) s₁ := by
      simp [run, hstep.active, hstep.step]
    rw [← Nat.add_assoc, hfirst, hrun]

end RouteBook.Yaml.Scan
