import Mathlib.Tactic.Common
import Sigil.Text.Occurrence
import Sigil.Proofs.Text.Bytes

/-!
# Parts of a text that is searched

The search for a text goes from left to right and goes on behind each occurrence that it meets.
`Passes` says that it comes to a certain place of a text. What it does in front of the place and
behind it are then two searches of their own (`Passes.replace`). Where it does not come to a place,
it meets an occurrence that lies across it (`passes_or_across`), and this one is not to be found in
the part in front of the place alone (`Across.replace`).
-/

namespace Sigil.Text

variable {old new t before rest rest' : Text} {c : Char}

section
variable {α : Type} {hit : α → α} {miss : Char → α → α} {stop : α}

/-- To skip characters is to walk on behind them. -/
lemma walkOccurrences_skip (skip : Nat) (t : Text) : walkOccurrences old hit miss stop skip t =
    walkOccurrences old hit miss stop 0 (t.drop skip) := by
  induction skip generalizing t with
  | zero => rfl
  | succ skip ih =>
    cases t with
    | nil => rfl
    | cons c t => exact ih t

/-- An occurrence at the start is met. -/
lemma walkOccurrences_append (ne : old ≠ []) : walkOccurrences old hit miss stop 0 (old ++ t) =
    hit (walkOccurrences old hit miss stop 0 t) := by
  obtain ⟨c, old, rfl⟩ := List.exists_cons_of_ne_nil ne
  have found : (c :: old).isPrefixOf (c :: (old ++ t)) = true :=
    List.isPrefixOf_iff_prefix.2 (List.prefix_append (c :: old) t)
  rw [List.cons_append, walkOccurrences, if_pos found, walkOccurrences_skip]
  simp

/-- A character with which no occurrence begins is passed. -/
lemma walkOccurrences_cons (h : ¬ old <+: c :: t) : walkOccurrences old hit miss stop 0 (c :: t) =
    miss c (walkOccurrences old hit miss stop 0 t) := by
  rw [walkOccurrences, if_neg (mt List.isPrefixOf_iff_prefix.1 h)]

end

/-- An occurrence at the start is replaced. -/
lemma replace_append (ne : old ≠ []) : replace old new (old ++ t) = new ++ replace old new t :=
  walkOccurrences_append ne

/-- A character with which no occurrence begins stays. -/
lemma replace_cons (h : ¬ old <+: c :: t) : replace old new (c :: t) = c :: replace old new t :=
  walkOccurrences_cons h

/-- An occurrence at the start is counted. -/
lemma occurrences_append (ne : old ≠ []) : occurrences old (old ++ t) = occurrences old t + 1 :=
  walkOccurrences_append ne

/-- A character with which no occurrence begins is not counted. -/
lemma occurrences_cons (h : ¬ old <+: c :: t) : occurrences old (c :: t) = occurrences old t :=
  walkOccurrences_cons h

/-- In the text `before ++ rest`, the search for `old` comes to the place between the two parts. -/
inductive Passes (old rest : Text) : Text → Prop where
  | start :
    Passes old rest []
  | met {before : Text} :
    Passes old rest before →
    Passes old rest (old ++ before)
  | other {c : Char} {before : Text} :
    ¬ old <+: c :: (before ++ rest) →
    Passes old rest before →
    Passes old rest (c :: before)

/-- In the text `before ++ rest`, the search meets an occurrence that lies across the place between
the two parts: its part `left` in front of the place, and its part `right` behind it. -/
def Across (old rest before : Text) : Prop :=
  ∃ first left right last, before = first ++ left ∧ rest = right ++ last ∧ old = left ++ right ∧
    left ≠ [] ∧ right ≠ [] ∧ Passes old (old ++ last) first

/-- What follows does not matter for a search that has passed, so it can as well be cut off. -/
lemma Passes.shorten (h : Passes old rest before) (shorter : rest' <+: rest) :
    Passes old rest' before := by
  induction h with
  | start => exact .start
  | met _ ih => exact .met ih
  | other absent _ ih =>
    refine .other (fun found => absent ?_) ih
    exact found.trans ((List.prefix_append_right_inj (_ :: _)).2 shorter)

/-- The search comes to a place, or it meets an occurrence across it. -/
lemma passes_or_across (ne : old ≠ []) (before rest : Text) :
    Passes old rest before ∨ Across old rest before := by
  induction n : before.length using Nat.strongRecOn generalizing before with
  | _ n ih =>
    by_cases inside : old <+: before
    · -- the occurrence lies in front of the place, and the search goes on behind it
      obtain ⟨before, rfl⟩ := inside
      have pos := List.length_pos_iff.2 ne
      rw [List.length_append] at n
      obtain passes | ⟨first, left, right, last, rfl, e, parts, nonempty, beyond, passes⟩ :=
        ih _ (by omega) before rfl
      · exact .inl (.met passes)
      · exact .inr ⟨old ++ first, left, right, last, (List.append_assoc ..).symm, e, parts,
          nonempty, beyond, .met passes⟩
    by_cases found : old <+: before ++ rest
    · -- the occurrence begins in front of the place and ends behind it
      obtain ⟨right, rfl⟩ := (List.prefix_or_prefix_of_prefix found
        (List.prefix_append before rest)).resolve_left inside
      obtain ⟨last, rfl⟩ := (List.prefix_append_right_inj before).1 found
      by_cases empty : before = []
      · exact .inl (empty ▸ .start)
      · have beyond : right ≠ [] := by
          rintro rfl
          exact inside (by simp)
        exact .inr ⟨[], before, right, last, rfl, rfl, rfl, empty, beyond, .start⟩
    · cases before with
      | nil => exact .inl .start
      | cons c before =>
        obtain passes | ⟨first, left, right, last, rfl, rfl, rfl, nonempty, beyond, passes⟩ :=
          ih before.length (by simp at n; omega) before rfl
        · exact .inl (.other found passes)
        · refine .inr ⟨c :: first, left, right, last, rfl, rfl, rfl, nonempty, beyond,
            .other ?_ passes⟩
          simpa using found

/-- The search comes to the end. -/
lemma passes_end (ne : old ≠ []) (t : Text) : Passes old [] t := by
  obtain passes | ⟨_, _, right, _, _, e, _, _, nonempty, _⟩ := passes_or_across ne t []
  · exact passes
  · exact absurd (List.append_eq_nil_iff.1 e.symm).1 nonempty

/-- The two parts are searched one after the other. -/
lemma Passes.replace (ne : old ≠ []) (h : Passes old rest before) :
    Text.replace old new (before ++ rest) =
      Text.replace old new before ++ Text.replace old new rest := by
  induction h with
  | start => rfl
  | met _ ih => rw [List.append_assoc, replace_append ne, replace_append ne, ih, List.append_assoc]
  | @other c before absent _ ih =>
    have absent' : ¬ old <+: c :: before :=
      fun found => absent (found.trans (List.prefix_append ..))
    rw [List.cons_append, replace_cons absent, replace_cons absent', ih, List.cons_append]

/-- Every occurrence that is replaced makes the same difference to the length. -/
lemma byteLength_replace (ne : old ≠ []) (t : Text) :
    byteLength (replace old new t) + occurrences old t * byteLength old =
      byteLength t + occurrences old t * byteLength new := by
  induction passes_end ne t with
  | start => simp [replace, occurrences, walkOccurrences]
  | met _ ih =>
    rw [replace_append ne, occurrences_append ne, byteLength_append, byteLength_append,
      Nat.add_mul, Nat.add_mul]
    omega
  | other absent _ ih =>
    rw [List.append_nil] at absent
    rw [replace_cons absent, occurrences_cons absent, byteLength_cons, byteLength_cons]
    omega

/-- The occurrences that are met lie in the text one behind the other, so they are not longer than
the text. -/
lemma occurrences_mul_le (old t : Text) : occurrences old t * byteLength old ≤ byteLength t := by
  by_cases empty : old = []
  · simp [empty]
  · -- replacing all of them by the empty text takes away what they are long
    have emptied : byteLength (replace old [] t) + occurrences old t * byteLength old =
        byteLength t + occurrences old t * byteLength [] := byteLength_replace empty t
    rw [byteLength_nil, Nat.mul_zero, Nat.add_zero] at emptied
    exact emptied ▸ Nat.le_add_left _ _

/-- A text in which there is nothing to replace stays as it is. -/
lemma replace_eq_self (absent : ¬ old <:+: t) : replace old new t = t := by
  induction t with
  | nil => rfl
  | cons c t ih =>
    rw [replace_cons fun found => absent found.isInfix]
    rw [ih fun found => absent (found.trans (List.suffix_cons c t).isInfix)]

/-- An occurrence across the place is replaced with the whole text, but not with the first part
alone. -/
lemma Across.replace (h : Across old rest before) : ∃ first left last, left ≠ [] ∧ ∀ new,
    Text.replace old new (before ++ rest) =
      Text.replace old new first ++ (new ++ Text.replace old new last) ∧
    Text.replace old new before = Text.replace old new first ++ left := by
  obtain ⟨first, left, right, last, rfl, rfl, e, nonempty, beyond, passes⟩ := h
  have ne : old ≠ [] := e ▸ List.append_ne_nil_of_left_ne_nil nonempty right
  have text : first ++ left ++ (right ++ last) = first ++ (old ++ last) := by simp [e]
  have within : left <+: old ++ last := by simp [e]
  have absent : ¬ old <:+: left := by
    intro found
    have le := found.length_le
    have pos := List.length_pos_iff.2 beyond
    rw [e, List.length_append] at le
    omega
  refine ⟨first, left, last, nonempty, fun new => ⟨?_, ?_⟩⟩
  · rw [text, passes.replace ne, replace_append ne]
  · rw [(passes.shorten within).replace ne, replace_eq_self absent]

/-- If there is no occurrence that starts in the first part, the search passes it by. -/
lemma passes_of_absent (absent : ∀ first last, before ++ rest = first ++ old ++ last →
    before.length ≤ first.length) : Passes old rest before := by
  induction before with
  | nil => exact .start
  | cons c before ih =>
    refine .other ?_ (ih fun first last e => ?_)
    · rintro ⟨last, e⟩
      exact absurd (absent [] last e.symm) (by simp)
    · have further := absent (c :: first) last (by simp [e])
      simpa using further

end Sigil.Text
