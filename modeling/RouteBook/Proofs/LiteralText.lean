import Mathlib.Data.List.Chain
import RouteBook.Proofs.Spelling

/-! What a literal denotes, told from how it is written: character by character in any of the
spellings, with halves of surrogate pairs and broken lines in between. Main statement: each part
contributes its own character; a half without its partner contributes the replacement character and
changes nothing beside it. -/
namespace RouteBook.Literal

inductive Part where
  | char (a : Char) (text : List Char) (spelled : Spelling a text)
  /-- A half of a surrogate pair. -/
  | half (n : Nat) (text : List Char) (isHalf : 0xD800 ≤ n ∧ n < 0xE000) (named : NumberText n text)
  | lineBreak

namespace Part

def text : Part → List Char
  | char _ t _ => t
  | half _ e _ _ => '\\' :: e
  | lineBreak => ['\\', '\n']

/-- The characters that a part stands for, where a half has no partner. -/
def chars : Part → List Char
  | char a _ _ => [a]
  | half _ _ _ _ => ['\uFFFD']
  | lineBreak => []

def isHigh : Part → Bool
  | half n _ _ _ => isHighSurrogate n
  | _ => false

def isLow : Part → Bool
  | half n _ _ _ => isLowSurrogate n
  | _ => false

def isLineBreak : Part → Bool
  | lineBreak => true
  | _ => false

end Part

/-- No half of a surrogate pair has its partner next to it, broken lines left out. -/
def NoPartners (ps : List Part) : Prop :=
  (ps.filter (!·.isLineBreak)).IsChain fun p q => ¬ (p.isHigh = true ∧ q.isLow = true)

instance (ps : List Part) : Decidable (NoPartners ps) :=
  inferInstanceAs (Decidable (List.IsChain _ _))

section Joining
variable {a : Char} {n high low : Nat} {ms : List Nat} {p : Part} {ps : List Part}

/-- A half is replaced unless it is the first one of a pair. -/
theorem joinSurrogates_half (hn : 0xD800 ≤ n ∧ n < 0xE000)
    (hnext : isHighSurrogate n = true → ∀ m ∈ ms.head?, isLowSurrogate m = false) :
    joinSurrogates (n :: ms) = '\uFFFD' :: joinSurrogates ms := by
  have hhalf : (isHighSurrogate n || isLowSurrogate n) = true := by
    simp only [isHighSurrogate, isLowSurrogate, Bool.or_eq_true, Bool.and_eq_true,
      decide_eq_true_eq]
    omega
  cases ms with
  | nil => simp [joinSurrogates, hhalf]
  | cons m ms =>
    have hno : (isHighSurrogate n && isLowSurrogate m) = false := by
      by_cases hh : isHighSurrogate n = true
      · simp [hnext hh m rfl]
      · simp [hh]
    rw [joinSurrogates, hno, hhalf]
    rfl

/-- The code points of a literal's parts. They start with a low half only if the parts do, broken
lines left out. -/
structure Reads (ps : List Part) (ns : List Nat) : Prop where
  contributes : Contributes (ps.flatMap Part.text) ns
  joined : joinSurrogates ns = ps.flatMap Part.chars
  starts : ∀ m ∈ ns.head?, isLowSurrogate m = true →
    ∃ q ∈ (ps.filter (!·.isLineBreak)).head?, q.isLow = true

theorem Reads.lineBreak (h : Reads ps ms) : Reads (.lineBreak :: ps) ms where
  contributes := (contributes_lineBreaks 1).append h.contributes
  joined := h.joined
  starts := h.starts

theorem Reads.char {t : List Char} (h : Reads ps ms) (hs : Spelling a t) :
    ∃ ns, Reads (.char a t hs :: ps) ns := by
  obtain hone | ⟨high, low, hp, htwo⟩ := hs.contributes
  · have hlow : isLowSurrogate a.toNat = false := by
      have hbounds := Text.toNat_bounds a
      simp only [isLowSurrogate, Bool.and_eq_false_iff, decide_eq_false_iff_not]
      omega
    refine ⟨[a.toNat] ++ ms, hone.append h.contributes, ?_, ?_⟩
    · exact (joinSurrogates_char a ms).trans (congrArg (a :: ·) h.joined)
    · simp [hlow]
  · have hlow : isLowSurrogate high = false := by
      have hhigh := hp.isHigh
      simp only [isHighSurrogate, Bool.and_eq_true, decide_eq_true_eq] at hhigh
      simp only [isLowSurrogate, Bool.and_eq_false_iff, decide_eq_false_iff_not]
      omega
    refine ⟨[high, low] ++ ms, htwo.append h.contributes, ?_, ?_⟩
    · exact (joinSurrogates_pair hp ms).trans (congrArg (a :: ·) h.joined)
    · simp [hlow]

theorem Reads.half {e : List Char} (h : Reads ps ms) (hn : 0xD800 ≤ n ∧ n < 0xE000)
    (he : NumberText n e) (hps : NoPartners (.half n e hn he :: ps)) :
    Reads (.half n e hn he :: ps) (n :: ms) where
  contributes := by
    have hle : n ≤ lastCodePoint := by
      simp only [lastCodePoint]
      omega
    exact (contributes_number he hle).append h.contributes
  joined := by
    refine (joinSurrogates_half hn fun hhigh m hm => ?_).trans (congrArg ('\uFFFD' :: ·) h.joined)
    -- A low half after it would come from a part that is its partner.
    by_contra hlow
    obtain ⟨q, hq, hqlow⟩ := h.starts m hm (by simpa using hlow)
    exact (List.isChain_cons.mp hps).1 q hq ⟨hhigh, hqlow⟩
  starts := by
    intro m hm hlow
    obtain rfl : n = m := Option.some.inj hm
    exact ⟨_, rfl, hlow⟩

theorem NoPartners.tail (h : NoPartners (p :: ps)) : NoPartners ps := by
  unfold NoPartners at h ⊢
  rw [List.filter_cons] at h
  split at h
  · exact (List.isChain_cons.mp h).2
  · exact h

theorem exists_reads (h : NoPartners ps) : ∃ ns, Reads ps ns := by
  induction ps with
  | nil => exact ⟨[], contributes_nil, rfl, by simp⟩
  | cons p ps ih =>
    obtain ⟨ms, hms⟩ := ih h.tail
    cases p with
    | char a t hs => exact hms.char hs
    | half n e hn he => exact ⟨n :: ms, hms.half hn he h⟩
    | lineBreak => exact ⟨ms, hms.lineBreak⟩

theorem Reads.decode {ns : List Nat} (h : Reads ps ns) :
    decode (ps.flatMap Part.text) = .ok (ps.flatMap Part.chars) := by
  have hcodes := h.contributes []
  rw [List.append_nil, codePoints] at hcodes
  rw [Literal.decode, hcodes, ← h.joined]
  simp [Functor.map, Except.map]

/-- Without halves of surrogate pairs the characters are those that are written. -/
theorem decode_of_spelled {ts : List (Char × List Char)} (h : ∀ t ∈ ts, Spelling t.1 t.2) :
    decode (ts.flatMap Prod.snd) = .ok (ts.map Prod.fst) := by
  have hparts : ∃ ps ns, Reads ps ns ∧ ps.flatMap Part.text = ts.flatMap Prod.snd ∧
      ps.flatMap Part.chars = ts.map Prod.fst := by
    induction ts with
    | nil => exact ⟨[], [], ⟨contributes_nil, rfl, by simp⟩, rfl, rfl⟩
    | cons t ts ih =>
      obtain ⟨hspelled, hrest⟩ := List.forall_mem_cons.mp h
      obtain ⟨ps, ms, hreads, htext, hchars⟩ := ih hrest
      obtain ⟨ns, hns⟩ := hreads.char hspelled
      refine ⟨.char t.1 t.2 hspelled :: ps, ns, hns, ?_, ?_⟩
      · exact congrArg (t.2 ++ ·) htext
      · exact congrArg (t.1 :: ·) hchars
  obtain ⟨ps, ns, hreads, htext, hchars⟩ := hparts
  rw [← htext, ← hchars, hreads.decode]

end Joining

/-- A literal denotes the characters of its parts, in whatever way each of them is written. A half
of a surrogate pair that has no partner next to it counts as one replacement character, and a broken
line as nothing. -/
theorem literal_denotes_its_parts (ps : List Part) (h : NoPartners ps) :
    decode (ps.flatMap Part.text) = .ok (ps.flatMap Part.chars) := by
  obtain ⟨ns, hns⟩ := exists_reads h
  exact hns.decode

/-- A byte order mark, halves that cannot be joined, a pair over two lines, and digits that do not
belong to the escape before them. -/
def mixture : List Part :=
  [.char '\uFEFF' ['\uFEFF'] (.raw (by decide)),
   .half 0xDE00 "uDE00".toList (by decide) (.four 'D' 'E' '0' '0' ⟨0, by decide⟩),
   .half 0xD83D "ud83D".toList (by decide) (.four 'd' '8' '3' 'D' ⟨0, by decide⟩),
   .lineBreak,
   .char '😀' "\\uD83D\\\n\\u\x7b0de00\x7d".toList
    (.pair 1 (⟨rfl, rfl, rfl⟩ : IsPair 0xD83D 0xDE00 '😀') (.four 'D' '8' '3' 'D' ⟨0, by decide⟩)
      (.braced "0de00".toList ⟨1, by decide⟩)),
   .half 0xDE00 "uDE00".toList (by decide) (.four 'D' 'E' '0' '0' ⟨0, by decide⟩),
   .char 'é' "\\xE9".toList (.number (.two 'E' '9' ⟨0, by decide⟩)),
   .char '9' ['9'] (.raw (by decide)),
   .char '\x00' "\\0".toList (.named (by decide)),
   .char '1' "\\1".toList (.same (by decide)),
   .char '\\' "\\\\".toList (.same (by decide)),
   .char 'u' ['u'] (.raw (by decide))]

theorem literal_denotes_its_parts_mixture :
    NoPartners mixture ∧
    mixture.flatMap Part.text =
      "\uFEFF\\uDE00\\ud83D\\\n\\uD83D\\\n\\u\x7b0de00\x7d\\uDE00\\xE99\\0\\1\\\\u".toList ∧
    decode (mixture.flatMap Part.text) = .ok "\uFEFF\uFFFD\uFFFD😀\uFFFDé9\x001\\u".toList := by
  have h : NoPartners mixture := by decide
  have hchars : mixture.flatMap Part.chars = "\uFEFF\uFFFD\uFFFD😀\uFFFDé9\x001\\u".toList := by
    decide
  rw [← hchars]
  exact ⟨h, by decide, literal_denotes_its_parts mixture h⟩

end RouteBook.Literal
