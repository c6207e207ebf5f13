import Lox.Proofs.Text.Decoding

/-!
# Encoding and decoding

A scalar of a text is **spelled** if its bytes are those of its character; every other scalar is one
byte that stands for the replacement character. The bytes of a character are read as the character
wherever they stand in a text (`first_encode`), and only there: none of the bytes after the first
begins a scalar. So decoding undoes encoding (`chars_ofChars`), encoding undoes decoding but for the
bytes that form no character (`ofChars_chars`), and a search for the bytes of a character finds it
where it is one of the characters (`hasChar_iff`).

The characters that are counted and picked by index are those of the list as well (`count_eq`,
`nth?_eq`).
-/

namespace Lox

namespace Text

/-- The bytes of a character are those of the standard encoding. -/
theorem encode_eq_utf8EncodeChar (c : Char) : encode c = String.utf8EncodeChar c := by
  have hvalid : c.toNat < 0xD800 ∨ 0xDFFF < c.toNat ∧ c.toNat < 0x110000 := c.valid
  have htail : ∀ n, tailByte n = UInt8.ofNat (n % 64 + 128) :=
    fun n => by rw [tailByte, Nat.add_comm]
  have h2 : c.toNat < 0x800 → c.toNat / 64 % 32 + 192 = 0xC0 + c.toNat / 64 := by omega
  have h3 : c.toNat < 0x10000 → c.toNat / 4096 % 16 + 224 = 0xE0 + c.toNat / 4096 := by omega
  have h4 : c.toNat / 262144 % 8 + 240 = 0xF0 + c.toNat / 262144 := by omega
  simp only [encode, String.utf8EncodeChar, htail, show c.val.toNat = c.toNat from rfl,
    ← Nat.lt_succ_iff, h4]
  grind

theorem toNat_ofNat {n : Nat} (hn : n < 256) : (UInt8.ofNat n).toNat = n :=
  UInt8.toNat_ofNat_of_lt hn

theorem toNat_tailByte (n : Nat) : (tailByte n).toNat = 0x80 + n % 64 := toNat_ofNat (by omega)

end Text

namespace Scalar

/-! ## Characters from bytes -/

/-- A scalar has the bytes of its character. -/
def Spelled (s : Scalar) : Prop := s.bytes = Text.encode s.char

/-- Every number but surrogates is that of a character. -/
theorem toNat_char {n : Nat} (hn : n < 0xD800 ∨ 0xDFFF < n ∧ n < 0x110000) :
    (Char.ofNat n).toNat = n := by
  rw [Char.toNat_ofNat, if_pos hn]

/-- The byte that six bits were read from. -/
theorem tailByte_eq {b : UInt8} {n : Nat} (hb : 0x80 ≤ b.toNat ∧ b.toNat ≤ 0xBF)
    (hn : n % 64 = b.toNat - 0x80) : Text.tailByte n = b := by
  have h := Text.toNat_tailByte n
  exact UInt8.toNat_inj.mp (by omega)

theorem lead_eq {a : UInt8} {n : Nat} (hn : n = a.toNat) : UInt8.ofNat n = a := by
  rw [hn, UInt8.ofNat_toNat]

section Spelling

variable {a : UInt8} {rest : Text} {s : Scalar}

/-- What is decoded from one byte is spelled by it. -/
theorem one?_spelled (h : one? a = some s) : s.Spelled := by
  unfold one? at h
  split at h
  next ha =>
    cases h
    have ha : a.toNat < 0x80 := UInt8.lt_iff_toNat_lt.mp ha
    simp only [Spelled, Text.encode, toNat_char (.inl (Nat.lt_trans ha (by decide))), if_pos ha,
      UInt8.ofNat_toNat]
  next => cases h

theorem two?_spelled (h : two? a rest = some s) : s.Spelled := by
  unfold two? at h
  split at h
  next b after =>
    split at h
    next hab =>
      rw [← Option.some.inj h]
      simp only [Bool.and_eq_true, decide_eq_true_eq, isTail_iff, UInt8.le_iff_toNat_le,
        UInt8.reduceToNat] at hab
      obtain ⟨⟨hlow, hhigh⟩, hb⟩ := hab
      generalize hn : (a.toNat - 0xC0) * 64 + tailBits b = n
      have hbits : tailBits b = b.toNat - 0x80 := rfl
      have hvalue : (Char.ofNat n).toNat = n := toNat_char (by omega)
      have hlead : UInt8.ofNat (0xC0 + n / 64) = a := lead_eq (by omega)
      simp only [Spelled, Text.encode, hvalue, if_neg (show ¬ n < 0x80 by omega),
        if_pos (show n < 0x800 by omega), hlead,
        tailByte_eq hb (show n % 64 = b.toNat - 0x80 by omega)]
    next => cases h
  next => cases h

theorem three?_spelled (h : three? a rest = some s) : s.Spelled := by
  unfold three? at h
  split at h
  next b c after =>
    split at h
    next habc =>
      rw [← Option.some.inj h]
      simp only [Bool.and_eq_true, isThreeLead_iff, isTail_iff] at habc
      obtain ⟨⟨hlow, hhigh, hlong, hsurrogate, hb⟩, hc⟩ := habc
      generalize hn : (a.toNat - 0xE0) * 4096 + tailBits b * 64 + tailBits c = n
      have hbits : tailBits b = b.toNat - 0x80 ∧ tailBits c = c.toNat - 0x80 := ⟨rfl, rfl⟩
      have hvalue : (Char.ofNat n).toNat = n := toNat_char (by omega)
      have hlead : UInt8.ofNat (0xE0 + n / 4096) = a := lead_eq (by omega)
      simp only [Spelled, Text.encode, hvalue, if_neg (show ¬ n < 0x80 by omega),
        if_neg (show ¬ n < 0x800 by omega), if_pos (show n < 0x10000 by omega), hlead,
        tailByte_eq hb (show n / 64 % 64 = b.toNat - 0x80 by omega),
        tailByte_eq hc (show n % 64 = c.toNat - 0x80 by omega)]
    next => cases h
  next => cases h

theorem four?_spelled (h : four? a rest = some s) : s.Spelled := by
  unfold four? at h
  split at h
  next b c d after =>
    split at h
    next habcd =>
      rw [← Option.some.inj h]
      simp only [Bool.and_eq_true, isFourLead_iff, isTail_iff] at habcd
      obtain ⟨⟨⟨hlow, hhigh, hlong, hlast, hb⟩, hc⟩, hd⟩ := habcd
      generalize hn : (a.toNat - 0xF0) * 262144 + tailBits b * 4096 + tailBits c * 64 +
        tailBits d = n
      have hbits : tailBits b = b.toNat - 0x80 ∧ tailBits c = c.toNat - 0x80 ∧ tailBits d =
          d.toNat - 0x80 :=
        ⟨rfl, rfl, rfl⟩
      have hvalue : (Char.ofNat n).toNat = n := toNat_char (by omega)
      have hlead : UInt8.ofNat (0xF0 + n / 262144) = a := lead_eq (by omega)
      simp only [Spelled, Text.encode, hvalue, if_neg (show ¬ n < 0x80 by omega),
        if_neg (show ¬ n < 0x800 by omega), if_neg (show ¬ n < 0x10000 by omega), hlead,
        tailByte_eq hb (show n / 4096 % 64 = b.toNat - 0x80 by omega),
        tailByte_eq hc (show n / 64 % 64 = c.toNat - 0x80 by omega),
        tailByte_eq hd (show n % 64 = d.toNat - 0x80 by omega)]
    next => cases h
  next => cases h

end Spelling

/-- What a text starts with is spelled, or is one byte that stands for the replacement character. -/
theorem first_spelled (a : UInt8) (rest : Text) :
    (first a rest).Spelled ∨ first a rest = ⟨replacement, [a]⟩ := by
  rcases first_cases a rest with h | h | h | h | h
  · exact .inl (one?_spelled h)
  · exact .inl (two?_spelled h)
  · exact .inl (three?_spelled h)
  · exact .inl (four?_spelled h)
  · exact .inr h

/-- The bytes of the replacement character are three, so a bad byte is not the spelling of one. -/
theorem Spelled.isBad_eq_false {s : Scalar} (h : s.Spelled) : s.isBad = false := by
  by_cases hc : s.char = replacement
  · have hwidth : s.width = 3 := by
      rw [width, h, hc]
      decide
    simp [isBad, hwidth]
  · simp [isBad, hc]

/-- The scalars of a text are spelled, or one byte each that forms no character. -/
theorem spelled_of_mem_decode {t : Text} {s : Scalar} (h : s ∈ t.decode) :
    s.Spelled ∨ ∃ b, s = ⟨replacement, [b]⟩ := by
  induction hn : t.length using Nat.strongRecOn generalizing t with
  | ind n ih =>
    cases t with
    | nil => cases h
    | cons a rest =>
      rw [Text.decode_cons, List.mem_cons] at h
      rcases h with rfl | h
      · exact (first_spelled a rest).imp_right fun h => ⟨a, h⟩
      · refine ih _ ?_ h rfl
        rw [← hn, List.length_drop, List.length_cons]
        omega

/-! ## Bytes of characters -/

theorem one?_eq_none {a : UInt8} (ha : 0x80 ≤ a.toNat) : one? a = none := by
  rw [one?, if_neg]
  rw [UInt8.lt_iff_toNat_lt]
  exact Nat.not_lt.mpr ha

theorem two?_eq_none {a : UInt8} (ha : 0xE0 ≤ a.toNat) (rest : Text) : two? a rest = none := by
  unfold two?
  split
  · refine if_neg ?_
    simp only [Bool.and_eq_true, decide_eq_true_eq, UInt8.le_iff_toNat_le, UInt8.reduceToNat]
    omega
  · rfl

theorem three?_eq_none {a : UInt8} (ha : 0xF0 ≤ a.toNat) (rest : Text) : three? a rest = none := by
  unfold three?
  split
  · refine if_neg ?_
    simp only [Bool.and_eq_true, isThreeLead_iff]
    omega
  · rfl

theorem isTail_tailByte (n : Nat) : isTail (Text.tailByte n) = true := by
  rw [isTail_iff, Text.toNat_tailByte]
  omega

theorem tailBits_tailByte (n : Nat) : tailBits (Text.tailByte n) = n % 64 := by
  have h := Text.toNat_tailByte n
  unfold tailBits
  omega

/-- The bytes of a character are read as the character, whatever follows them. The first of them
continues none. -/
theorem first_encode (c : Char) (rest : Text) :
    ∃ a tail, Text.encode c = a :: tail ∧ isTail a = false ∧ first a (tail ++ rest) = ofChar c := by
  have hvalid : c.toNat < 0xD800 ∨ 0xDFFF < c.toNat ∧ c.toNat < 0x110000 := c.valid
  have hhead : ∀ {a : UInt8}, ¬ (0x80 ≤ a.toNat ∧ a.toNat ≤ 0xBF) → isTail a = false := fun ha =>
    Bool.eq_false_iff.mpr fun h => ha (isTail_iff.mp h)
  unfold ofChar Text.encode
  dsimp only
  split_ifs with h1 h2 h3
  · have ha : (UInt8.ofNat c.toNat).toNat = c.toNat := Text.toNat_ofNat (by omega)
    refine ⟨_, _, rfl, hhead (by omega), first_of_one ?_⟩
    rw [one?, if_pos (UInt8.lt_iff_toNat_lt.mpr (by rw [ha]; exact h1)), ha, Char.ofNat_toNat]
  · have ha : (UInt8.ofNat (0xC0 + c.toNat / 64)).toNat = 0xC0 + c.toNat / 64 :=
      Text.toNat_ofNat (by omega)
    generalize UInt8.ofNat (0xC0 + c.toNat / 64) = a at ha ⊢
    have hvalue : (a.toNat - 0xC0) * 64 + c.toNat % 64 = c.toNat := by omega
    refine ⟨_, _, rfl, hhead (by omega), first_of_two (one?_eq_none (by omega)) ?_⟩
    rw [List.singleton_append, two?, if_pos, tailBits_tailByte, hvalue, Char.ofNat_toNat]
    simp only [isTail_tailByte, Bool.and_eq_true, decide_eq_true_eq, UInt8.le_iff_toNat_le,
      UInt8.reduceToNat, and_true]
    omega
  · have ha : (UInt8.ofNat (0xE0 + c.toNat / 4096)).toNat = 0xE0 + c.toNat / 4096 :=
      Text.toNat_ofNat (by omega)
    generalize UInt8.ofNat (0xE0 + c.toNat / 4096) = a at ha ⊢
    have hvalue : (a.toNat - 0xE0) * 4096 + c.toNat / 64 % 64 * 64 + c.toNat % 64 =
        c.toNat := by omega
    refine ⟨_, _, rfl, hhead (by omega),
      first_of_three (one?_eq_none (by omega)) (two?_eq_none (by omega) _) ?_⟩
    rw [List.cons_append, List.singleton_append, three?, if_pos, tailBits_tailByte,
      tailBits_tailByte, hvalue, Char.ofNat_toNat]
    simp only [isTail_tailByte, isThreeLead_iff, Text.toNat_tailByte, Bool.and_eq_true, and_true]
    omega
  · have ha : (UInt8.ofNat (0xF0 + c.toNat / 262144)).toNat = 0xF0 + c.toNat / 262144 :=
      Text.toNat_ofNat (by omega)
    generalize UInt8.ofNat (0xF0 + c.toNat / 262144) = a at ha ⊢
    have hvalue : (a.toNat - 0xF0) * 262144 + c.toNat / 4096 % 64 * 4096 + c.toNat / 64 % 64 * 64 +
        c.toNat % 64 = c.toNat := by omega
    refine ⟨_, _, rfl, hhead (by omega),
      first_of_four (one?_eq_none (by omega)) (two?_eq_none (by omega) _)
      (three?_eq_none (by omega) _) ?_⟩
    rw [List.cons_append, List.cons_append, List.singleton_append, four?, if_pos, tailBits_tailByte,
      tailBits_tailByte, tailBits_tailByte, hvalue, Char.ofNat_toNat]
    simp only [isTail_tailByte, isFourLead_iff, Text.toNat_tailByte, Bool.and_eq_true, and_true]
    omega

end Scalar

namespace Text

/-! ## Decoding and encoding -/

/-- A character that is encoded is decoded. -/
theorem decode_encode (c : Char) (rest : Text) :
    decode (encode c ++ rest) = Scalar.ofChar c :: decode rest := by
  obtain ⟨a, tail, hencode, -, hfirst⟩ := Scalar.first_encode c rest
  have hwidth : (Scalar.ofChar c).width - 1 = tail.length := by
    rw [Scalar.width, Scalar.ofChar, hencode, List.length_cons, Nat.add_sub_cancel]
  rw [hencode, List.cons_append, decode_cons, hfirst, hwidth, List.drop_left]

/-- So are many. -/
theorem decode_ofChars (cs : List Char) : decode (ofChars cs) = cs.map Scalar.ofChar := by
  induction cs with
  | nil => rfl
  | cons c cs ih => rw [ofChars, List.flatMap_cons, decode_encode, ← ofChars, ih, List.map_cons]

/-- The characters of an encoding are those that were encoded. -/
theorem chars_ofChars (cs : List Char) : chars (ofChars cs) = cs := by
  rw [chars, decode_ofChars, Scalar.chars, List.map_map]
  exact List.map_id cs

end Text

namespace Scalar

/-- The bytes of a scalar, with the replacement character written out for a byte that forms no
character. -/
def repaired (s : Scalar) : Text := if s.isBad then [0xEF, 0xBF, 0xBD] else s.bytes

/-- A character is encoded as it was read, repaired. -/
theorem encode_char {t : Text} {s : Scalar} (h : s ∈ t.decode) :
    Text.encode s.char = s.repaired := by
  rcases spelled_of_mem_decode h with hs | ⟨b, rfl⟩
  · rw [repaired, hs.isBad_eq_false, ← hs]
    rfl
  · have hbad : isBad ⟨replacement, [b]⟩ = true := by simp [isBad, width]
    rw [repaired, if_pos hbad]
    exact (by decide : Text.encode replacement = [0xEF, 0xBF, 0xBD])

end Scalar

namespace Text

/-- A text in which the replacement character is written out for every byte that forms no
character. -/
def repaired (t : Text) : Text := t.decode.flatMap Scalar.repaired

/-- The encoding of the characters of a text. -/
theorem ofChars_chars (t : Text) : ofChars t.chars = t.repaired := by
  rw [ofChars, chars, Scalar.chars, List.flatMap_map, repaired]
  exact List.flatMap_congr fun s hs => Scalar.encode_char hs

/-- A text stays as it is just when it is the encoding of some characters. -/
theorem repaired_eq_iff (t : Text) : t.repaired = t ↔ ∃ cs, t = ofChars cs := by
  constructor
  · intro h
    exact ⟨t.chars, by rw [ofChars_chars, h]⟩
  · rintro ⟨cs, rfl⟩
    rw [← ofChars_chars, chars_ofChars]

/-! ## Counting, picking and searching -/

theorem countAfter_eq (skip : Nat) (t : Text) :
    countAfter skip t = (decodeAfter skip t).length := by
  induction t generalizing skip with
  | nil => rfl
  | cons a rest ih =>
    cases skip with
    | zero => rw [countAfter, decodeAfter, ih, List.length_cons, Nat.add_comm]
    | succ skip => exact ih skip

/-- There are as many characters as are counted. -/
theorem count_eq (t : Text) : t.count = t.chars.length := by
  rw [count, countAfter_eq, chars, Scalar.chars, List.length_map, decode]

theorem nthAfter?_eq (skip : Nat) (t : Text) (i : Nat) :
    nthAfter? skip t i = (Scalar.chars (decodeAfter skip t))[i]? := by
  induction t generalizing skip i with
  | nil => rfl
  | cons a rest ih =>
    cases skip with
    | succ skip => exact ih skip i
    | zero =>
      cases i with
      | zero => rfl
      | succ i => exact ih _ i

/-- The character at an index is the one of the list there. -/
theorem nth?_eq (t : Text) (i : Nat) : t.nth? i = t.chars[i]? := nthAfter?_eq 0 t i

/-- A text occurs in another as a run of bytes. -/
theorem occursIn_iff (needle t : Text) : occursIn needle t = true ↔ needle <:+: t := by
  induction t with
  | nil => simp [occursIn]
  | cons b rest ih =>
    rw [occursIn, Bool.or_eq_true, ih, List.isPrefixOf_iff_prefix, List.infix_cons_iff]

/-- The bytes of a character occur in a text just where it has the character. -/
theorem encode_infix_iff {c : Char} (hc : c ≠ Scalar.replacement) (t : Text) :
    encode c <:+: t ↔ c ∈ t.chars := by
  constructor
  · rintro ⟨before, after, rfl⟩
    obtain ⟨a, tail, hencode, hlead, -⟩ := Scalar.first_encode c after
    -- The first byte of the character starts a scalar, whatever stands before it.
    have hdecode : decode (before ++ encode c ++ after) =
        decode before ++ Scalar.ofChar c :: decode after := by
      rw [← decode_encode, hencode, List.append_assoc, List.cons_append, decode_append hlead]
    rw [chars, hdecode, Scalar.chars]
    simp [Scalar.ofChar]
  · intro h
    obtain ⟨s, hs, rfl⟩ := List.mem_map.mp h
    rcases Scalar.spelled_of_mem_decode hs with hspelled | ⟨b, rfl⟩
    · rw [← hspelled]
      obtain ⟨before, after, hsplit⟩ := List.append_of_mem hs
      refine ⟨Scalar.text before, Scalar.text after, ?_⟩
      rw [← text_decode t, hsplit, Scalar.text_append, Scalar.text_cons, List.append_assoc]
    · exact absurd rfl hc

/-- Searching for a character finds it if it is one of the characters. -/
theorem hasChar_iff (t : Text) (c : Char) : t.hasChar c = true ↔ c ∈ t.chars := by
  rw [hasChar]
  split
  next => rw [List.contains_iff_mem]
  next hc => rw [occursIn_iff, encode_infix_iff (by simpa using hc)]

end Text

end Lox
