import Mathlib.Data.List.Basic
import RouteBook.Text.Utf8

/-! Byte texts and their characters: reading undoes the encoding, and what reads as characters
throughout is the encoding of them. -/
namespace RouteBook.Text
variable {c : Char} {b t u v : UInt8} {s : List Char} {rest bytes : List UInt8}

def encode (s : List Char) : List UInt8 := s.flatMap String.utf8EncodeChar

@[simp] theorem encode_nil : encode [] = [] := rfl

@[simp] theorem encode_cons (c : Char) (s : List Char) :
    encode (c :: s) = String.utf8EncodeChar c ++ encode s := rfl

theorem encode_append (s t : List Char) : encode (s ++ t) = encode s ++ encode t := by
  rw [encode, encode, encode, List.flatMap_append]

abbrev IsTail (b : UInt8) : Prop := 0x80 ≤ b.toNat ∧ b.toNat ≤ 0xBF

theorem firstPiece_one (h : b.toNat < 0x80) (rest : List UInt8) :
    firstPiece b rest = .char (Char.ofNat b.toNat) := by
  rw [firstPiece, if_pos h]

theorem firstPiece_two (hb : 0xC2 ≤ b.toNat ∧ b.toNat ≤ 0xDF) (ht : IsTail t)
    (rest : List UInt8) :
    firstPiece b (t :: rest) = .char (Char.ofNat (b.toNat % 32 * 64 + t.toNat % 64)) := by
  have hlead : ¬ b.toNat < 0x80 := by omega
  have hshape : leadShape? b.toNat = some (1, 0x80, 0xBF) := by rw [leadShape?, if_pos hb]
  have htail : tailBytes 1 0x80 0xBF (t :: rest) = [t] := by
    rw [tailBytes, if_pos ht, tailBytes]
  rw [firstPiece, if_neg hlead, hshape]
  simp [htail]

theorem shape_cases {n k lo hi : Nat} (h : leadShape? n = some (k, lo, hi)) :
    (k = 1 ∧ lo = 0x80 ∧ hi = 0xBF ∧ 0xC2 ≤ n ∧ n ≤ 0xDF) ∨
    (k = 2 ∧ 0xE0 ≤ n ∧ n ≤ 0xEF ∧ 0x80 ≤ lo ∧ hi ≤ 0xBF ∧ (n = 0xE0 → 0xA0 ≤ lo) ∧
      (n = 0xED → hi ≤ 0x9F)) ∨
    (k = 3 ∧ 0xF0 ≤ n ∧ n ≤ 0xF4 ∧ 0x80 ≤ lo ∧ hi ≤ 0xBF ∧ (n = 0xF0 → 0x90 ≤ lo) ∧
      (n = 0xF4 → hi ≤ 0x8F)) := by
  unfold leadShape? at h
  split_ifs at h <;> cases h <;> omega

theorem lead_of_shape {n : Nat} {shape : Nat × Nat × Nat} (h : leadShape? n = some shape) :
    ¬ n < 0x80 := by
  have hcases := shape_cases h
  omega

theorem firstPiece_three {lo hi : Nat} (hb : leadShape? b.toNat = some (2, lo, hi))
    (ht : lo ≤ t.toNat ∧ t.toNat ≤ hi) (hu : IsTail u) (rest : List UInt8) :
    firstPiece b (t :: u :: rest) =
      .char (Char.ofNat ((b.toNat % 16 * 64 + t.toNat % 64) * 64 + u.toNat % 64)) := by
  have htail : tailBytes 2 lo hi (t :: u :: rest) = [t, u] := by
    rw [tailBytes, if_pos ht, tailBytes, if_pos hu, tailBytes]
  rw [firstPiece, if_neg (lead_of_shape hb), hb]
  simp [htail]

theorem firstPiece_four {lo hi : Nat} (hb : leadShape? b.toNat = some (3, lo, hi))
    (ht : lo ≤ t.toNat ∧ t.toNat ≤ hi) (hu : IsTail u) (hv : IsTail v) (rest : List UInt8) :
    firstPiece b (t :: u :: v :: rest) =
      .char (Char.ofNat (((b.toNat % 8 * 64 + t.toNat % 64) * 64 + u.toNat % 64) * 64 +
        v.toNat % 64)) := by
  have htail : tailBytes 3 lo hi (t :: u :: v :: rest) = [t, u, v] := by
    rw [tailBytes, if_pos ht, tailBytes, if_pos hu, tailBytes, if_pos hv, tailBytes]
  rw [firstPiece, if_neg (lead_of_shape hb), hb]
  simp [htail]

theorem toNat_ofNat {n : Nat} (h : n < 256) : (UInt8.ofNat n).toNat = n := by
  rw [UInt8.toNat_ofNat', Nat.mod_eq_of_lt h]

theorem toNat_bounds (c : Char) : c.toNat < 0xD800 ∨ 0xDFFF < c.toNat ∧ c.toNat < 0x110000 :=
  c.valid

theorem encodeChar_one {n : Nat} (hc : c.toNat = n) (h : n ≤ 0x7F) :
    String.utf8EncodeChar c = [UInt8.ofNat n] := by
  change c.val.toNat = n at hc
  simp only [String.utf8EncodeChar, hc, h, if_true]

theorem encodeChar_two {n : Nat} (hc : c.toNat = n) (h : 0x7F < n) (h' : n ≤ 0x7FF) :
    String.utf8EncodeChar c = [UInt8.ofNat (n / 64 + 0xC0), UInt8.ofNat (n % 64 + 0x80)] := by
  change c.val.toNat = n at hc
  have hn : ¬ n ≤ 0x7F := by omega
  have hm : n / 64 % 32 = n / 64 := by omega
  simp only [String.utf8EncodeChar, hc, hn, h', if_true, if_false, hm]

theorem encodeChar_three {n : Nat} (hc : c.toNat = n) (h : 0x7FF < n) (h' : n ≤ 0xFFFF) :
    String.utf8EncodeChar c = [UInt8.ofNat (n / 4096 + 0xE0), UInt8.ofNat (n / 64 % 64 + 0x80),
      UInt8.ofNat (n % 64 + 0x80)] := by
  change c.val.toNat = n at hc
  have hn : ¬ n ≤ 0x7F := by omega
  have hn' : ¬ n ≤ 0x7FF := by omega
  have hm : n / 4096 % 16 = n / 4096 := by omega
  simp only [String.utf8EncodeChar, hc, hn, hn', h', if_true, if_false, hm]

theorem encodeChar_four {n : Nat} (hc : c.toNat = n) (h : 0xFFFF < n) (h' : n < 0x110000) :
    String.utf8EncodeChar c = [UInt8.ofNat (n / 262144 + 0xF0), UInt8.ofNat (n / 4096 % 64 + 0x80),
      UInt8.ofNat (n / 64 % 64 + 0x80), UInt8.ofNat (n % 64 + 0x80)] := by
  change c.val.toNat = n at hc
  have hn : ¬ n ≤ 0x7F := by omega
  have hn' : ¬ n ≤ 0x7FF := by omega
  have hn'' : ¬ n ≤ 0xFFFF := by omega
  have hm : n / 262144 % 8 = n / 262144 := by omega
  simp only [String.utf8EncodeChar, hc, hn, hn', hn'', if_false, hm]

theorem isTail_ofNat {n : Nat} (h : n < 64) : IsTail (UInt8.ofNat (n + 0x80)) := by
  rw [IsTail, toNat_ofNat (by omega)]
  omega

theorem shape_three {n : Nat} (h : 0x7FF < n) (h' : n ≤ 0xFFFF)
    (hv : n < 0xD800 ∨ 0xDFFF < n) :
    ∃ lo hi, leadShape? (n / 4096 + 0xE0) = some (2, lo, hi) ∧
      lo ≤ n / 64 % 64 + 0x80 ∧ n / 64 % 64 + 0x80 ≤ hi := by
  unfold leadShape?
  split_ifs
  · omega
  · exact ⟨_, _, rfl, by omega, by omega⟩
  · exact ⟨_, _, rfl, by omega, by omega⟩
  · exact ⟨_, _, rfl, by omega, by omega⟩
  all_goals omega

theorem shape_four {n : Nat} (h : 0xFFFF < n) (h' : n < 0x110000) :
    ∃ lo hi, leadShape? (n / 262144 + 0xF0) = some (3, lo, hi) ∧
      lo ≤ n / 4096 % 64 + 0x80 ∧ n / 4096 % 64 + 0x80 ≤ hi := by
  unfold leadShape?
  split_ifs
  · omega
  · omega
  · omega
  · omega
  · exact ⟨_, _, rfl, by omega, by omega⟩
  · exact ⟨_, _, rfl, by omega, by omega⟩
  · exact ⟨_, _, rfl, by omega, by omega⟩
  · omega

theorem firstPiece_encodeChar (c : Char) (rest : List UInt8) :
    ∃ b tail, String.utf8EncodeChar c = b :: tail ∧ firstPiece b (tail ++ rest) = .char c := by
  have hv := toNat_bounds c
  have hc : Char.ofNat c.toNat = c := Char.ofNat_toNat c
  generalize hn : c.toNat = n at hv hc
  by_cases h1 : n ≤ 0x7F
  · refine ⟨_, _, encodeChar_one hn h1, ?_⟩
    have hb : (UInt8.ofNat n).toNat = n := toNat_ofNat (by omega)
    rw [firstPiece_one (by omega), hb, hc]
  · by_cases h2 : n ≤ 0x7FF
    · refine ⟨_, _, encodeChar_two hn (by omega) h2, ?_⟩
      have hb : (UInt8.ofNat (n / 64 + 0xC0)).toNat = n / 64 + 0xC0 := toNat_ofNat (by omega)
      have ht : (UInt8.ofNat (n % 64 + 0x80)).toNat = n % 64 + 0x80 := toNat_ofNat (by omega)
      have hsum : (n / 64 + 0xC0) % 32 * 64 + (n % 64 + 0x80) % 64 = n := by omega
      rw [List.cons_append, firstPiece_two (by omega) (isTail_ofNat (by omega)), hb, ht, hsum, hc]
    · by_cases h3 : n ≤ 0xFFFF
      · refine ⟨_, _, encodeChar_three hn (by omega) h3, ?_⟩
        obtain ⟨lo, hi, hshape, hlo, hhi⟩ := shape_three (n := n) (by omega) h3 (by omega)
        have hb : (UInt8.ofNat (n / 4096 + 0xE0)).toNat = n / 4096 + 0xE0 :=
          toNat_ofNat (by omega)
        have ht : (UInt8.ofNat (n / 64 % 64 + 0x80)).toNat = n / 64 % 64 + 0x80 :=
          toNat_ofNat (by omega)
        have hu : (UInt8.ofNat (n % 64 + 0x80)).toNat = n % 64 + 0x80 := toNat_ofNat (by omega)
        have hsum : ((n / 4096 + 0xE0) % 16 * 64 + (n / 64 % 64 + 0x80) % 64) * 64 +
            (n % 64 + 0x80) % 64 = n := by omega
        rw [List.cons_append, List.cons_append, firstPiece_three (by rw [hb]; exact hshape)
          (by rw [ht]; exact ⟨hlo, hhi⟩) (isTail_ofNat (by omega)), hb, ht, hu, hsum, hc]
      · refine ⟨_, _, encodeChar_four hn (by omega) (by omega), ?_⟩
        obtain ⟨lo, hi, hshape, hlo, hhi⟩ := shape_four (n := n) (by omega) (by omega)
        have hb : (UInt8.ofNat (n / 262144 + 0xF0)).toNat = n / 262144 + 0xF0 :=
          toNat_ofNat (by omega)
        have ht : (UInt8.ofNat (n / 4096 % 64 + 0x80)).toNat = n / 4096 % 64 + 0x80 :=
          toNat_ofNat (by omega)
        have hu : (UInt8.ofNat (n / 64 % 64 + 0x80)).toNat = n / 64 % 64 + 0x80 :=
          toNat_ofNat (by omega)
        have hw : (UInt8.ofNat (n % 64 + 0x80)).toNat = n % 64 + 0x80 := toNat_ofNat (by omega)
        have hsum : (((n / 262144 + 0xF0) % 8 * 64 + (n / 4096 % 64 + 0x80) % 64) * 64 +
            (n / 64 % 64 + 0x80) % 64) * 64 + (n % 64 + 0x80) % 64 = n := by omega
        rw [List.cons_append, List.cons_append, List.cons_append,
          firstPiece_four (by rw [hb]; exact hshape) (by rw [ht]; exact ⟨hlo, hhi⟩)
            (isTail_ofNat (by omega)) (isTail_ofNat (by omega)), hb, ht, hu, hw, hsum, hc]

theorem pieces_encodeChar (c : Char) (rest : List UInt8) :
    pieces (String.utf8EncodeChar c ++ rest) = .char c :: pieces rest := by
  obtain ⟨b, tail, he, hp⟩ := firstPiece_encodeChar c rest
  have hlen : c.utf8Size = tail.length + 1 := by
    rw [← String.length_utf8EncodeChar, he, List.length_cons]
  rw [he, List.cons_append, pieces, hp]
  simp [Piece.size, hlen]

theorem pieces_encode (s : List Char) : pieces (encode s) = ofChars s := by
  induction s with
  | nil => rw [encode_nil, pieces]; rfl
  | cons c s ih => rw [encode_cons, pieces_encodeChar, ih]; rfl

theorem decode?_encode (s : List Char) : decode? (encode s) = some s := by
  rw [decode?, pieces_encode]
  induction s with
  | nil => rfl
  | cons c s ih =>
    rw [ofChars, List.map_cons, List.mapM_cons]
    rw [ofChars] at ih
    rw [ih]
    rfl

theorem toNat_charOfNat {n : Nat} (h : n < 0xD800 ∨ 0xDFFF < n ∧ n < 0x110000) :
    (Char.ofNat n).toNat = n := by
  rw [Char.ofNat, dif_pos h]
  rfl

theorem ofNat_eq {n : Nat} (h : n = b.toNat) : UInt8.ofNat n = b := by
  rw [h, UInt8.ofNat_toNat]

theorem encode_two (hb : 0xC2 ≤ b.toNat ∧ b.toNat ≤ 0xDF) (ht : IsTail t) :
    String.utf8EncodeChar (Char.ofNat (b.toNat % 32 * 64 + t.toNat % 64)) = [b, t] := by
  rw [encodeChar_two (toNat_charOfNat (by omega)) (by omega) (by omega),
    ofNat_eq (b := b) (by omega), ofNat_eq (b := t) (by omega)]

theorem encode_three {lo hi : Nat} (hb : leadShape? b.toNat = some (2, lo, hi))
    (ht : lo ≤ t.toNat ∧ t.toNat ≤ hi) (hu : IsTail u) :
    String.utf8EncodeChar (Char.ofNat ((b.toNat % 16 * 64 + t.toNat % 64) * 64 + u.toNat % 64)) =
      [b, t, u] := by
  have hcases := shape_cases hb
  rw [encodeChar_three (toNat_charOfNat (by omega)) (by omega) (by omega),
    ofNat_eq (b := b) (by omega), ofNat_eq (b := t) (by omega), ofNat_eq (b := u) (by omega)]

theorem encode_four {lo hi : Nat} (hb : leadShape? b.toNat = some (3, lo, hi))
    (ht : lo ≤ t.toNat ∧ t.toNat ≤ hi) (hu : IsTail u) (hv : IsTail v) :
    String.utf8EncodeChar (Char.ofNat (((b.toNat % 8 * 64 + t.toNat % 64) * 64 +
      u.toNat % 64) * 64 + v.toNat % 64)) = [b, t, u, v] := by
  have hcases := shape_cases hb
  rw [encodeChar_four (toNat_charOfNat (by omega)) (by omega) (by omega),
    ofNat_eq (b := b) (by omega), ofNat_eq (b := t) (by omega), ofNat_eq (b := u) (by omega),
    ofNat_eq (b := v) (by omega)]

/-- The tail of a character, where there is one of its whole length. -/
theorem tailBytes_succ {n lo hi : Nat} (h : (tailBytes (n + 1) lo hi rest).length = n + 1) :
    ∃ t more, rest = t :: more ∧ (lo ≤ t.toNat ∧ t.toNat ≤ hi) ∧
      (tailBytes n 0x80 0xBF more).length = n := by
  cases rest with
  | nil => simp [tailBytes] at h
  | cons t more =>
    rw [tailBytes] at h
    split at h
    · next ht => exact ⟨t, more, rfl, ht, by simpa using h⟩
    · simp at h

theorem encodeChar_of_firstPiece (h : firstPiece b rest = .char c) :
    ∃ tail more, rest = tail ++ more ∧ String.utf8EncodeChar c = b :: tail := by
  by_cases h1 : b.toNat < 0x80
  · rw [firstPiece_one h1] at h
    cases h
    refine ⟨[], rest, rfl, ?_⟩
    rw [encodeChar_one (toNat_charOfNat (by omega)) (by omega), ofNat_eq rfl]
  · cases hs : leadShape? b.toNat with
    | none => simp [firstPiece, h1, hs] at h
    | some shape =>
      obtain ⟨k, lo, hi⟩ := shape
      have hlen : (tailBytes k lo hi rest).length = k := by
        by_contra hne
        simp [firstPiece, h1, hs, hne] at h
      rcases shape_cases hs with ⟨rfl, rfl, rfl, hb⟩ | ⟨rfl, -⟩ | ⟨rfl, -⟩
      · obtain ⟨t, more, rfl, ht, -⟩ := tailBytes_succ hlen
        rw [firstPiece_two hb ht] at h
        cases h
        exact ⟨[t], more, rfl, encode_two hb ht⟩
      · obtain ⟨t, more, rfl, ht, hlen⟩ := tailBytes_succ hlen
        obtain ⟨u, more, rfl, hu, -⟩ := tailBytes_succ hlen
        rw [firstPiece_three hs ht hu] at h
        cases h
        exact ⟨[t, u], more, rfl, encode_three hs ht hu⟩
      · obtain ⟨t, more, rfl, ht, hlen⟩ := tailBytes_succ hlen
        obtain ⟨u, more, rfl, hu, hlen⟩ := tailBytes_succ hlen
        obtain ⟨v, more, rfl, hv, -⟩ := tailBytes_succ hlen
        rw [firstPiece_four hs ht hu hv] at h
        cases h
        exact ⟨[t, u, v], more, rfl, encode_four hs ht hu hv⟩

/-- What reads as characters throughout is the encoding of these characters. -/
theorem decode?_eq_some_iff : decode? bytes = some s ↔ bytes = encode s := by
  refine ⟨?_, fun h => h ▸ decode?_encode s⟩
  intro h
  rw [decode?] at h
  fun_induction pieces bytes generalizing s with
  | case1 =>
    cases h
    rfl
  | case2 b rest p =>
    rename_i ih
    rw [List.mapM_cons] at h
    cases hp : firstPiece b rest with
    | stray x => simp [p, hp, Piece.char?] at h
    | char c =>
      obtain ⟨tail, more, rfl, he⟩ := encodeChar_of_firstPiece hp
      have hsize : c.utf8Size - 1 = tail.length := by
        rw [← String.length_utf8EncodeChar, he, List.length_cons, Nat.add_sub_cancel]
      simp only [p, hp, Piece.char?, Piece.size, hsize, List.drop_left, Option.bind_eq_bind,
        Option.bind_some] at h ih
      obtain ⟨s', hs', he'⟩ := Option.bind_eq_some_iff.mp h
      cases he'
      rw [encode_cons, he, ← ih hs']
      rfl

end RouteBook.Text
