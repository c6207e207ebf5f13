import Mathlib
import Lox.Text.Scalar

/-!
# Decoding loses no byte

`first` takes its bytes from the front of a text and takes at least one, so the scalars of a text
put together are the text again (`text_decode`). What was skipped is only what an earlier scalar has
taken (`decodeAfter_eq`), which turns the one pass of `decode` into a recursion from scalar to
scalar (`decode_cons`).

A byte that continues no character starts a scalar wherever it stands, so decoding can be cut before
it (`decode_append`). It can be cut between any two scalars as well, and what stands before the cut
decodes to what it was (`decode_text`).
-/

namespace Lox

namespace Scalar

@[simp] theorem text_nil : text [] = [] := rfl

@[simp] theorem text_cons (s : Scalar) (ss : List Scalar) :
    text (s :: ss) = s.bytes ++ text ss := by
  simp [text]

/-- The bytes of characters one after another. -/
@[simp] theorem text_append (ss ts : List Scalar) : text (ss ++ ts) = text ss ++ text ts := by
  simp [text]

/-- A character of one byte. -/
theorem one?_bytes {a : UInt8} {s : Scalar} (h : one? a = some s) : s.bytes = [a] := by
  unfold one? at h
  split at h
  · cases h; rfl
  · cases h

/-- Of two. -/
theorem two?_bytes {a : UInt8} {rest : Text} {s : Scalar} (h : two? a rest = some s) :
    ∃ b after, rest = b :: after ∧ s.bytes = [a, b] := by
  unfold two? at h
  split at h
  · split at h
    · exact ⟨_, _, rfl, by rw [← Option.some.inj h]⟩
    · cases h
  · cases h

/-- Of three. -/
theorem three?_bytes {a : UInt8} {rest : Text} {s : Scalar} (h : three? a rest = some s) :
    ∃ b c after, rest = b :: c :: after ∧ s.bytes = [a, b, c] := by
  unfold three? at h
  split at h
  · split at h
    · exact ⟨_, _, _, rfl, by rw [← Option.some.inj h]⟩
    · cases h
  · cases h

/-- Of four. -/
theorem four?_bytes {a : UInt8} {rest : Text} {s : Scalar} (h : four? a rest = some s) :
    ∃ b c d after, rest = b :: c :: d :: after ∧ s.bytes = [a, b, c, d] := by
  unfold four? at h
  split at h
  · split at h
    · exact ⟨_, _, _, _, rfl, by rw [← Option.some.inj h]⟩
    · cases h
  · cases h

/-- The first scalar is a character of one to four bytes, or one byte that forms none. -/
theorem first_cases (a : UInt8) (rest : Text) :
    one? a = some (first a rest) ∨ two? a rest = some (first a rest) ∨ three? a rest =
      some (first a rest) ∨
      four? a rest = some (first a rest) ∨ first a rest = ⟨replacement, [a]⟩ := by
  unfold first
  cases h1 : one? a with
  | some s => exact .inl rfl
  | none =>
    cases h2 : two? a rest with
    | some s => exact .inr (.inl rfl)
    | none =>
      cases h3 : three? a rest with
      | some s => exact .inr (.inr (.inl rfl))
      | none =>
        cases h4 : four? a rest with
        | some s => exact .inr (.inr (.inr (.inl rfl)))
        | none => exact .inr (.inr (.inr (.inr rfl)))

/-- The first scalar takes the first byte and some of those after it, in order. -/
theorem first_bytes (a : UInt8) (rest : Text) :
    ∃ tail after, rest = tail ++ after ∧ (first a rest).bytes = a :: tail := by
  rcases first_cases a rest with h | h | h | h | h
  · exact ⟨[], rest, rfl, one?_bytes h⟩
  · obtain ⟨b, after, hrest, hb⟩ := two?_bytes h
    exact ⟨[b], after, hrest, hb⟩
  · obtain ⟨b, c, after, hrest, hb⟩ := three?_bytes h
    exact ⟨[b, c], after, hrest, hb⟩
  · obtain ⟨b, c, d, after, hrest, hb⟩ := four?_bytes h
    exact ⟨[b, c, d], after, hrest, hb⟩
  · exact ⟨[], rest, rfl, by rw [h]⟩

theorem first_width_pos (a : UInt8) (rest : Text) : 0 < (first a rest).width := by
  obtain ⟨tail, _, _, h⟩ := first_bytes a rest
  simp [width, h]

/-! ### Where scalars end -/

/-- The bytes that only go on. -/
theorem isTail_iff {b : UInt8} : isTail b = true ↔ 0x80 ≤ b.toNat ∧ b.toNat ≤ 0xBF := by
  simp [isTail, UInt8.le_iff_toNat_le]

/-- The bytes that three-byte characters start with, without surrogates. -/
theorem isThreeLead_iff {a b : UInt8} :
    isThreeLead a b = true ↔ 0xE0 ≤ a.toNat ∧ a.toNat ≤ 0xEF ∧
    (a.toNat = 0xE0 → 0xA0 ≤ b.toNat) ∧ (a.toNat = 0xED → b.toNat ≤ 0x9F) ∧ 0x80 ≤ b.toNat ∧
      b.toNat ≤ 0xBF := by
  simp only [isThreeLead, isTail, beq_iff_eq, UInt8.le_iff_toNat_le, ← UInt8.toNat_inj,
    UInt8.reduceToNat]
  split_ifs <;> simp only [Bool.and_eq_true, decide_eq_true_eq] <;> omega

/-- Those that four-byte characters start with, up to the last one. -/
theorem isFourLead_iff {a b : UInt8} :
    isFourLead a b = true ↔ 0xF0 ≤ a.toNat ∧ a.toNat ≤ 0xF4 ∧
    (a.toNat = 0xF0 → 0x90 ≤ b.toNat) ∧ (a.toNat = 0xF4 → b.toNat ≤ 0x8F) ∧ 0x80 ≤ b.toNat ∧
      b.toNat ≤ 0xBF := by
  simp only [isFourLead, isTail, beq_iff_eq, UInt8.le_iff_toNat_le, ← UInt8.toNat_inj,
    UInt8.reduceToNat]
  split_ifs <;> simp only [Bool.and_eq_true, decide_eq_true_eq] <;> omega

/-- A byte that is a character by itself continues none. -/
theorem isTail_of_lt {b : UInt8} (hb : b < 0x80) : isTail b = false := by
  simp [isTail, UInt8.not_le.mpr hb]

section Cuts

variable {b : UInt8} (hb : isTail b = false)

include hb

theorem isThreeLead_eq_false (a : UInt8) : isThreeLead a b = false := by
  refine Bool.eq_false_iff.mpr fun h => ?_
  obtain ⟨-, -, -, -, htail⟩ := isThreeLead_iff.mp h
  exact Bool.false_ne_true (hb.symm.trans (isTail_iff.mpr htail))

theorem isFourLead_eq_false (a : UInt8) : isFourLead a b = false := by
  refine Bool.eq_false_iff.mpr fun h => ?_
  obtain ⟨-, -, -, -, htail⟩ := isFourLead_iff.mp h
  exact Bool.false_ne_true (hb.symm.trans (isTail_iff.mpr htail))

/-- A byte that continues no character goes on from none before it. -/
theorem first_append (a : UInt8) (rest after : Text) :
    first a (rest ++ b :: after) = first a rest := by
  have htwo : two? a (rest ++ b :: after) = two? a rest := by
    cases rest with
    | nil => simp [two?, hb]
    | cons => rfl
  have hthree : three? a (rest ++ b :: after) = three? a rest := by
    match rest with
    | [] => cases after <;> simp [three?, isThreeLead_eq_false hb]
    | [c] => simp [three?, hb]
    | _ :: _ :: _ => rfl
  have hfour : four? a (rest ++ b :: after) = four? a rest := by
    match rest with
    | [] =>
      match after with
      | [] | [_] => rfl
      | _ :: _ :: _ => simp [four?, isFourLead_eq_false hb]
    | [c] => cases after <;> simp [four?, hb]
    | [c, d] => simp [four?, hb]
    | _ :: _ :: _ :: _ => rfl
  rw [first, first, htwo, hthree, hfour]

end Cuts

section Chain

variable {a : UInt8} {t : Text} {s : Scalar}

theorem first_of_one (h1 : one? a = some s) : first a t = s := by
  rw [first, h1]
  rfl

theorem first_of_two (h1 : one? a = none) (h2 : two? a t = some s) : first a t = s := by
  rw [first, h1, h2]
  rfl

theorem first_of_three (h1 : one? a = none) (h2 : two? a t = none) (h3 : three? a t = some s) :
    first a t = s := by
  rw [first, h1, h2, h3]
  rfl

theorem first_of_four (h1 : one? a = none) (h2 : two? a t = none) (h3 : three? a t = none)
    (h4 : four? a t = some s) : first a t = s := by
  rw [first, h1, h2, h3, h4]
  rfl

end Chain

/-- A scalar that takes no more than the beginning of a text is read from the beginning alone. -/
theorem first_of_append {a : UInt8} {rest more : Text}
    (h : (first a (rest ++ more)).width ≤ rest.length + 1) :
    first a rest = first a (rest ++ more) := by
  -- What needs more bytes than the beginning has would be wider than the scalar is.
  have hnarrow : ∀ {s : Scalar}, first a (rest ++ more) = s →
      rest.length + 1 < s.bytes.length → False := by
    intro s hs hwide
    rw [hs] at h
    exact Nat.not_lt.mpr h hwide
  cases h1 : one? a with
  | some s => rw [first_of_one h1, first_of_one h1]
  | none =>
    have htwo : two? a rest = two? a (rest ++ more) := by
      cases rest with
      | cons => rfl
      | nil =>
        refine (Option.eq_none_iff_forall_ne_some.mpr fun s hs => ?_).symm
        obtain ⟨_, _, _, hbytes⟩ := two?_bytes hs
        exact hnarrow (first_of_two h1 hs) (by simp [hbytes])
    cases h2 : two? a (rest ++ more) with
    | some s => rw [first_of_two h1 (htwo.trans h2), first_of_two h1 h2]
    | none =>
      have hthree : three? a rest = three? a (rest ++ more) := by
        match rest with
        | _ :: _ :: _ => rfl
        | [] | [_] =>
          refine (Option.eq_none_iff_forall_ne_some.mpr fun s hs => ?_).symm
          obtain ⟨_, _, _, _, hbytes⟩ := three?_bytes hs
          exact hnarrow (first_of_three h1 h2 hs) (by simp [hbytes])
      cases h3 : three? a (rest ++ more) with
      | some s => rw [first_of_three h1 (htwo.trans h2) (hthree.trans h3), first_of_three h1 h2 h3]
      | none =>
        have hfour : four? a rest = four? a (rest ++ more) := by
          match rest with
          | _ :: _ :: _ :: _ => rfl
          | [] | [_] | [_, _] =>
            refine (Option.eq_none_iff_forall_ne_some.mpr fun s hs => ?_).symm
            obtain ⟨_, _, _, _, _, hbytes⟩ := four?_bytes hs
            exact hnarrow (first_of_four h1 h2 h3 hs) (by simp [hbytes])
        rw [first, first, htwo, hthree, hfour]

end Scalar

namespace Text

/-- Skipping bytes is decoding what is left without them. -/
theorem decodeAfter_eq (skip : Nat) (t : Text) : decodeAfter skip t = decode (t.drop skip) := by
  induction t generalizing skip with
  | nil => simp [decode, decodeAfter]
  | cons a rest ih =>
    cases skip with
    | zero => rfl
    | succ skip =>
      rw [decodeAfter, ih skip]
      rfl

@[simp] theorem decode_nil : decode [] = [] := rfl

/-- A text that is not empty decodes to its first scalar and the scalars of what that one leaves. -/
theorem decode_cons (a : UInt8) (rest : Text) :
    decode (a :: rest) = Scalar.first a rest ::
      decode (rest.drop ((Scalar.first a rest).width - 1)) := by
  rw [decode, decodeAfter, decodeAfter_eq]

/-- What the first scalar leaves of a text. -/
theorem drop_first (a : UInt8) (rest : Text) :
    a :: rest = (Scalar.first a rest).bytes ++ rest.drop ((Scalar.first a rest).width - 1) := by
  obtain ⟨tail, after, rfl, h⟩ := Scalar.first_bytes a rest
  simp [Scalar.width, h]

/-- The scalars of a text put together are the text. -/
theorem text_decode (t : Text) : Scalar.text t.decode = t := by
  induction hn : t.length using Nat.strongRecOn generalizing t with
  | ind n ih =>
    cases t with
    | nil => rfl
    | cons a rest =>
      rw [decode_cons, Scalar.text_cons,
        ih _ (by simp only [← hn, List.length_drop, List.length_cons]; omega) _ rfl, ← drop_first]

/-- Every scalar of a text has a byte. -/
theorem width_pos_of_mem_decode (t : Text) : ∀ s ∈ t.decode, 0 < s.width := by
  induction hn : t.length using Nat.strongRecOn generalizing t with
  | ind n ih =>
    cases t with
    | nil => simp
    | cons a rest =>
      intro s hs
      rw [decode_cons, List.mem_cons] at hs
      rcases hs with rfl | hs
      · exact Scalar.first_width_pos a rest
      · exact ih _ (by simp only [← hn, List.length_drop, List.length_cons]; omega) _ rfl s hs

/-- Decoding can be cut before a byte that continues no character. -/
theorem decode_append {b : UInt8} (hb : Scalar.isTail b = false) (t after : Text) :
    decode (t ++ b :: after) = decode t ++ decode (b :: after) := by
  induction hn : t.length using Nat.strongRecOn generalizing t with
  | ind n ih =>
    cases t with
    | nil => rfl
    | cons a rest =>
      have hwidth : (Scalar.first a rest).width - 1 ≤ rest.length := by
        obtain ⟨tail, left, rfl, hbytes⟩ := Scalar.first_bytes a rest
        simp [Scalar.width, hbytes]
      rw [List.cons_append, decode_cons, Scalar.first_append hb,
        List.drop_append_of_le_length hwidth, decode_cons a rest, List.cons_append,
        ih _ _ (rest.drop ((Scalar.first a rest).width - 1)) rfl]
      rw [← hn, List.length_drop, List.length_cons]
      omega

theorem decode_text_suffix {t : Text} {before ss : List Scalar} (h : t.decode = before ++ ss) :
    decode (Scalar.text ss) = ss := by
  induction before generalizing t with
  | nil =>
    have ht := text_decode t
    rw [h, List.nil_append] at ht
    rw [ht, h, List.nil_append]
  | cons s before ih =>
    cases t with
    | nil => cases h
    | cons a rest =>
      rw [decode_cons, List.cons_append] at h
      exact ih (List.cons.inj h).2

theorem decode_text_prefix {t : Text} {ss after : List Scalar} (h : t.decode = ss ++ after) :
    decode (Scalar.text ss) = ss := by
  induction ss generalizing t with
  | nil => rfl
  | cons s ss ih =>
    cases t with
    | nil => cases h
    | cons a rest =>
      obtain ⟨tail, left, rfl, hbytes⟩ := Scalar.first_bytes a rest
      have hdrop : (tail ++ left).drop ((Scalar.first a (tail ++ left)).width - 1) = left := by
        simp [Scalar.width, hbytes]
      rw [decode_cons, hdrop, List.cons_append] at h
      obtain ⟨hfirst, hleft⟩ := List.cons.inj h
      have htext : left = Scalar.text ss ++ Scalar.text after := by
        rw [← Scalar.text_append, ← hleft, text_decode]
      -- The first scalar ends before what is cut off.
      have hsame : Scalar.first a (tail ++ Scalar.text ss) = s := by
        rw [← hfirst, htext, ← List.append_assoc]
        apply Scalar.first_of_append
        rw [List.append_assoc, ← htext, Scalar.width, hbytes, List.length_cons, List.length_append]
        omega
      have hdrop' : (tail ++ Scalar.text ss).drop (s.width - 1) = Scalar.text ss := by
        simp [Scalar.width, ← hfirst, hbytes]
      rw [hfirst] at hbytes
      rw [Scalar.text_cons, hbytes, List.cons_append, decode_cons, hsame, hdrop', ih hleft]

/-- Scalars that follow each other in a text are the scalars of their own bytes. -/
theorem decode_text {t : Text} {before ss after : List Scalar}
    (h : t.decode = before ++ (ss ++ after)) : decode (Scalar.text ss) = ss :=
  decode_text_prefix (decode_text_suffix h)

end Text

end Lox
