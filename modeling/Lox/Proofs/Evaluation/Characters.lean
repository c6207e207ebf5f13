import Lox.Builtin
import Lox.Heap.Index
import Lox.Proofs.Heap.Growth
import Lox.Proofs.Text.Encoding

/-!
# What the characters of a string are

A program meets the characters of a string in five ways: it counts them, picks one by an index,
takes the string apart into a list, searches for one, and puts a string together from a list. All
five go by one list of characters, that of the decoded string, whatever bytes the string has
(`characters_agree`).

An index is a number, and a number is a double. Which whole number it is, is said by its exact value
(`Binary.value`).
-/

namespace Lox

/-! ## Indices -/

namespace Binary

/-- The exact value of a finite double. -/
def value (b : Binary) : ℚ := (if b.negative then -1 else 1) * b.mantissa * 2 ^ b.exponent

/-- The whole number that is found is the exact value. -/
theorem toInt?_eq_some_iff (b : Binary) (k : ℤ) : b.toInt? = some k ↔ b.value = k := by
  obtain ⟨negative, mantissa, exponent⟩ := b
  cases exponent with
  | ofNat e =>
    have hvalue : value ⟨negative, mantissa, .ofNat e⟩ =
        ((if negative then -1 else 1) * Int.ofNat (mantissa * Nat.pow 2 e) : ℤ) := by simp [value]
    rw [hvalue, toInt?, Option.some.injEq, Int.cast_inj]
  | negSucc e =>
    obtain ⟨sign, hsign, hsquare⟩ : ∃ sign : ℤ, sign = (if negative then -1 else 1) ∧
        sign * sign = 1 :=
      ⟨_, rfl, by split <;> rfl⟩
    have hvalue : value ⟨negative, mantissa, .negSucc e⟩ = k ↔
        sign * mantissa = k * 2 ^ (e + 1) := by
      have hpos : (2 : ℚ) ^ (e + 1) ≠ 0 := by positivity
      rw [value, zpow_negSucc, ← div_eq_mul_inv, div_eq_iff hpos, ← Int.cast_inj (α := ℚ), hsign]
      push_cast
      rfl
    have hunit : ((Nat.pow 2 (e + 1) : ℕ) : ℤ) = 2 ^ (e + 1) := by simp
    have hpos : (0 : ℤ) < 2 ^ (e + 1) := by positivity
    rw [hvalue, toInt?]
    dsimp only
    rw [← hsign]
    split
    next hwhole =>
      obtain ⟨quotient, rfl⟩ := Nat.dvd_of_mod_eq_zero (beq_iff_eq.mp hwhole)
      have hquotient : Nat.pow 2 (e + 1) * quotient / Nat.pow 2 (e + 1) = quotient :=
        Nat.mul_div_cancel_left _ (Nat.pow_pos (by decide))
      rw [hquotient, Option.some.injEq, Nat.cast_mul, hunit, mul_left_comm, mul_comm k,
        mul_right_inj' hpos.ne']
      rfl
    next hpart =>
      refine iff_of_false nofun fun heq => hpart (beq_iff_eq.mpr (Nat.mod_eq_zero_of_dvd ?_))
      rw [← Int.natCast_dvd_natCast, hunit]
      refine ⟨sign * k, ?_⟩
      calc (mantissa : ℤ) = sign * sign * mantissa := by rw [hsquare, one_mul]
        _ = 2 ^ (e + 1) * (sign * k) := by rw [mul_assoc, heq]; ring

end Binary

/-- A value is a number, and the number is a natural one. -/
def Value.IsNatural (v : Value) (i : ℕ) : Prop :=
  ∃ x b, v = .number x ∧ Binary.ofFloat? x = some b ∧ b.value = i

/-- A value says a position just when it is a natural number below the length. -/
theorem positionOf_eq_ok_iff (index : Value) (length i : ℕ) :
    positionOf index length = .ok i ↔ index.IsNatural i ∧ i < length := by
  unfold positionOf
  split
  next x =>
    have hnatural : (Value.number x).IsNatural i ↔ (Binary.ofFloat? x).bind Binary.toInt? =
        some (i : ℤ) := by
      rw [Option.bind_eq_some_iff]
      constructor
      · rintro ⟨_, b, hx, hb, hvalue⟩
        cases hx
        exact ⟨b, hb, (b.toInt?_eq_some_iff i).mpr (by exact_mod_cast hvalue)⟩
      · rintro ⟨b, hb, hvalue⟩
        exact ⟨x, b, rfl, hb, by exact_mod_cast (b.toInt?_eq_some_iff i).mp hvalue⟩
    rw [hnatural]
    split
    next hnone => simp [hnone]
    next k hnegative => simp [hnegative]
    next k hk =>
      rw [hk, Option.some.injEq]
      split
      next hlt =>
        rw [Except.ok.injEq]
        constructor
        · rintro rfl
          exact ⟨rfl, hlt⟩
        · rintro ⟨heq, -⟩
          exact Int.ofNat.inj heq
      next hge =>
        refine iff_of_false nofun ?_
        rintro ⟨heq, hlt⟩
        exact hge (Int.ofNat.inj heq ▸ hlt)
  next hkind =>
    refine iff_of_false nofun ?_
    rintro ⟨⟨x, _, rfl, _⟩, _⟩
    exact hkind x rfl

/-! ## Characters -/

namespace Builtin

theorem charsOf_map (cs : List Char) : charsOf (cs.map Value.char) = .ok cs := by
  induction cs with
  | nil => rfl
  | cons c cs ih => rw [List.map_cons, charsOf, ih]; rfl

/-- A list of characters has a character as an element just when the character is one of them. -/
theorem any_equals_char (cs : List Char) (c : Char) :
    ((cs.map Value.char).any fun element => element.equals (.char c)) = cs.contains c := by
  rw [List.any_map, List.contains_eq_any_beq]
  congr 1
  funext d
  exact Bool.beq_comm

end Builtin

/-- An index of a string picks what it picks from the list of the characters. -/
theorem Heap.item_string {h : Heap} {t : Text} {id : ListId}
    (hid : h.elements id = (t.chars.map Value.char).toArray) (index : Value) :
    h.item (.string t) index = h.item (.list id) index := by
  have hsize : (h.elements id).size = t.count := by simp [hid, Text.count_eq]
  simp only [item, hsize]
  cases positionOf index t.count with
  | error problem => rfl
  | ok i =>
    have hpick : (h.elements id).getD i .nil = ((t.nth? i).map Value.char).getD .nil := by
      rw [hid, Text.nth?_eq, Array.getD_eq_getD_getElem?, List.getElem?_toArray, List.getElem?_map]
    rw [Except.map, Except.map, hpick]

section Natives

variable (blame : Span) (console : Console)

/-- What a native says about arguments. -/
def ask (b : Builtin) (arguments : List Value) (h : Heap) : Except Stop Value :=
  (b.call arguments blame h console).result

/-- What a program can find out about the characters of a string and about the elements of a list,
where both are the same. -/
structure SameCharacters (h : Heap) (s : Text) (id : ListId) : Prop where
  /-- The lengths are the same, and an index of the string is right just when it is a natural number
  below the length. -/
  length : ∃ n : ℕ, ask blame console .len [.string s] h = .ok (.number (.ofNat n)) ∧
    ask blame console .len [.list id] h = .ok (.number (.ofNat n)) ∧
    ∀ index, (∃ i, index.IsNatural i ∧ i < n ∧ ∃ c, h.item (.string s) index = .ok (.char c)) ∨
      ((¬ ∃ i, index.IsNatural i ∧ i < n) ∧ ∃ problem, h.item (.string s) index = .error problem)
  /-- An index picks the same from both, or has the same problem with both. -/
  item : ∀ index, h.item (.string s) index = h.item (.list id) index
  /-- A character is found in both or in none. -/
  has : ∀ c, ∃ found, ask blame console .has [.string s, .char c] h = .ok (.bool found) ∧
    ask blame console .has [.list id, .char c] h = .ok (.bool found)

variable {blame console}

theorem sameCharacters {h : Heap} {s : Text} {id : ListId}
    (hid : h.elements id = (s.chars.map Value.char).toArray) :
    SameCharacters blame console h s id where
  length := by
    have hsize : (h.elements id).size = s.count := by simp [hid, Text.count_eq]
    refine ⟨s.count, rfl, by rw [← hsize]; rfl, fun index => ?_⟩
    cases hposition : positionOf index s.count with
    | ok i =>
      obtain ⟨hi, hlt⟩ := (positionOf_eq_ok_iff index s.count i).mp hposition
      obtain ⟨c, hc⟩ : ∃ c, s.nth? i = some c := by
        rw [Text.count_eq] at hlt
        exact ⟨_, (Text.nth?_eq s i).trans (List.getElem?_eq_getElem hlt)⟩
      refine .inl ⟨i, hi, hlt, c, ?_⟩
      rw [Heap.item, hposition, Except.map, hc]
      rfl
    | error problem =>
      refine .inr ⟨?_, problem, by rw [Heap.item, hposition]; rfl⟩
      rintro ⟨i, hi, hlt⟩
      rw [(positionOf_eq_ok_iff index s.count i).mpr ⟨hi, hlt⟩] at hposition
      cases hposition
  item := Heap.item_string hid
  has c := by
    have hfound : ((h.elements id).toList.any fun element => element.equals (.char c)) =
        s.hasChar c := by
      rw [hid, Builtin.any_equals_char, Bool.eq_iff_iff, List.contains_iff_mem, Text.hasChar_iff]
    exact ⟨s.hasChar c, rfl, by rw [← hfound]; rfl⟩

end Natives

/-- All ways to meet the characters of a string agree on what they are. The list that a string is
taken apart into has them as its elements. A string put together from it is the string itself, but
for bytes that form no character, and what is put together from characters is taken apart into
these. -/
theorem characters_agree (blame : Span) (console : Console) (h : Heap) (s : Text) :
    (∃ id h', Builtin.expand.call [.string s] blame h console = ⟨.ok (.list id), h', console⟩ ∧
      SameCharacters blame console h' s id ∧
      ask blame console .fromChars [.list id] h' = .ok (.string s.repaired)) ∧
    (s.repaired = s ↔ ∃ cs : List Char, s = cs.flatMap String.utf8EncodeChar) ∧
    ∀ (id : ListId) (cs : List Char), h.elements id = (cs.map Value.char).toArray →
      ∃ t id' h', ask blame console .fromChars [.list id] h = .ok (.string t) ∧
        Builtin.expand.call [.string t] blame h console = ⟨.ok (.list id'), h', console⟩ ∧
        h'.elements id' = h.elements id := by
  have hmade :
      ∀ t : Text, ∃ h', Builtin.expand.call [.string t] blame h console =
      ⟨.ok (.list h.lists.size), h', console⟩ ∧ h'.elements h.lists.size =
      (t.chars.map Value.char).toArray := fun t =>
    ⟨_, rfl, (h.elements_newList _ _).trans (if_pos rfl)⟩
  have hfrom : ∀ {g : Heap} {id : ListId} {cs : List Char},
      g.elements id = (cs.map Value.char).toArray → ask blame console .fromChars [.list id] g =
      .ok (.string (Text.ofChars cs)) := by
    intro g id cs hid
    have hchars : Builtin.stringOfChars g (.list id) = .ok (.string (Text.ofChars cs)) := by
      rw [Builtin.stringOfChars, hid, Builtin.charsOf_map]
      rfl
    exact congrArg (Except.mapError (Stop.blame · blame)) hchars
  have hencode : Text.encode = String.utf8EncodeChar := funext Text.encode_eq_utf8EncodeChar
  refine ⟨?_, ?_, fun id cs hid => ?_⟩
  · obtain ⟨h', hcall, helements⟩ := hmade s
    exact ⟨_, h', hcall, sameCharacters helements, by rw [hfrom helements, Text.ofChars_chars]⟩
  · rw [Text.repaired_eq_iff, ← hencode]
    rfl
  · obtain ⟨h', hcall, helements⟩ := hmade (Text.ofChars cs)
    exact ⟨_, _, h', hfrom hid, hcall, by rw [helements, Text.chars_ofChars, hid]⟩

end Lox
