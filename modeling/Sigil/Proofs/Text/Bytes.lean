import Mathlib.Tactic.Common
import Sigil.Text.Bytes

/-!
# Byte positions and parts of a text

A position at which a text can be cut is the length of a first part of the text
(`splitAtByte_eq_some_iff`), and a span covers what stands between a first and a last part
(`slice_eq_some_iff`). Every code point takes at least one byte, so different first parts end at
different positions (`append_left_inj_of_byteLength`).
-/

namespace Sigil.Text

variable {s t before before' after after' : Text} {n : Nat}

/-- The empty text takes no bytes. -/
@[simp] lemma byteLength_nil : byteLength [] = 0 := rfl

/-- A text takes the bytes of its first character and those of the rest. -/
@[simp] lemma byteLength_cons (c : Char) (t : Text) :
    byteLength (c :: t) = c.utf8Size + byteLength t := rfl

/-- The bytes of two texts one behind the other add up. -/
@[simp] lemma byteLength_append (s t : Text) :
    byteLength (s ++ t) = byteLength s + byteLength t := by
  induction s with
  | nil => simp
  | cons c s ih => simp [ih, Nat.add_assoc]

/-- A repeated character takes its bytes as often as it stands there. -/
@[simp] lemma byteLength_replicate (n : Nat) (c : Char) :
    byteLength (List.replicate n c) = n * c.utf8Size := by
  induction n with
  | zero => simp
  | succ n ih => simp [List.replicate_succ, ih, Nat.succ_mul, Nat.add_comm]

/-- A part of a text, even with gaps, does not take more bytes than the text. -/
lemma byteLength_le_of_sublist (h : s.Sublist t) : byteLength s ≤ byteLength t := by
  induction h with
  | slnil => exact Nat.le_refl _
  | cons c _ ih => exact Nat.le_trans ih (Nat.le_add_left _ _)
  | cons_cons c _ ih => exact Nat.add_le_add_left ih _

/-- A text with a character in it takes a byte. -/
lemma byteLength_pos (ne : t ≠ []) : 0 < byteLength t := by
  obtain ⟨c, t, rfl⟩ := List.exists_cons_of_ne_nil ne
  exact Nat.add_pos_left c.utf8Size_pos _

/-- A text can be cut behind each of its first parts. -/
lemma splitAtByte_append (before after : Text) :
    splitAtByte (byteLength before) (before ++ after) = some (before, after) := by
  induction before with
  | nil => simp [splitAtByte]
  | cons c before ih =>
    obtain ⟨n, hn⟩ := Nat.exists_eq_add_one.2 (byteLength_pos (List.cons_ne_nil c before))
    have fits : c.utf8Size ≤ n + 1 := hn ▸ Nat.le_add_right _ _
    have left : n + 1 - c.utf8Size = byteLength before := by
      rw [← hn, byteLength_cons, Nat.add_sub_cancel_left]
    rw [hn, List.cons_append, splitAtByte, if_pos fits, left, ih]
    rfl

/-- A text can be cut where one of its first parts ends. -/
lemma splitAtByte_eq_some_iff :
    splitAtByte n t = some (before, after) ↔ t = before ++ after ∧ byteLength before = n := by
  refine ⟨fun h => ?_, fun ⟨e, hn⟩ => e ▸ hn ▸ splitAtByte_append before after⟩
  induction t generalizing n before with
  | nil =>
    cases n with
    | zero =>
      cases h
      exact ⟨rfl, rfl⟩
    | succ n => cases h
  | cons c t ih =>
    cases n with
    | zero =>
      cases h
      exact ⟨rfl, rfl⟩
    | succ n =>
      rw [splitAtByte] at h
      split at h
      · rename_i fits
        obtain ⟨⟨before, after⟩, cut, e⟩ := Option.map_eq_some_iff.1 h
        cases e
        obtain ⟨rfl, left⟩ := ih cut
        exact ⟨rfl, by rw [byteLength_cons, left, Nat.add_sub_cancel' fits]⟩
      · cases h

/-- A span covers what stands between a first part, which ends where the span starts, and the
rest. -/
lemma slice_eq_some_iff {span : Span} : slice span t = some s ↔
    ∃ before after, t = before ++ s ++ after ∧
      span = ⟨byteLength before, byteLength before + byteLength s⟩ := by
  obtain ⟨start, stop⟩ := span
  constructor
  · intro h
    unfold slice at h
    split at h
    · rename_i le
      obtain ⟨⟨before, rest⟩, cut, h⟩ := Option.bind_eq_some_iff.1 h
      obtain ⟨⟨inside, after⟩, cut', h⟩ := Option.bind_eq_some_iff.1 h
      cases h
      obtain ⟨rfl, rfl⟩ := splitAtByte_eq_some_iff.1 cut
      obtain ⟨rfl, len⟩ := splitAtByte_eq_some_iff.1 cut'
      refine ⟨before, after, (List.append_assoc ..).symm, ?_⟩
      rw [len, Nat.add_sub_cancel' le]
    · cases h
  · rintro ⟨before, after, rfl, e⟩
    cases e
    simp [slice, splitAtByte_append, List.append_assoc]

/-- First parts of the same length are the same. -/
lemma append_left_inj_of_byteLength (e : before ++ after = before' ++ after')
    (len : byteLength before = byteLength before') : before = before' := by
  have cut := splitAtByte_append before after
  rw [e, len, splitAtByte_append] at cut
  cases cut
  rfl

end Sigil.Text
