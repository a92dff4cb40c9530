import Mathlib.Tactic.Common
import Sigil.Text.Basic

/-!
# The parts of a text

Cutting a text at a character and putting the parts together again are inverse to each other
(`intercalate_split`, `split_intercalate`), as long as no part has the character in it. Both are
known of lists in general, and `split_eq_splitOn` makes this knowledge available.
-/

namespace Sigil.Text

/-- There is at least one part, and be it an empty one. -/
lemma split_ne_nil (sep : Char) (t : Text) : split sep t ≠ [] := by
  cases t with
  | nil => exact List.cons_ne_nil _ _
  | cons c rest =>
    unfold split
    split
    · exact List.cons_ne_nil _ _
    · split <;> exact List.cons_ne_nil _ _

/-- The parts are those of the library's function. -/
lemma split_eq_splitOn (sep : Char) (t : Text) : split sep t = t.splitOn sep := by
  induction t with
  | nil => rfl
  | cons c rest ih =>
    rw [split, List.splitOn_cons_eq_if_modifyHead, ← ih]
    by_cases h : c = sep
    · rw [if_pos h, if_pos (beq_iff_eq.2 h)]
    · rw [if_neg h, if_neg (mt beq_iff_eq.1 h)]
      obtain ⟨first, others, e⟩ := List.exists_cons_of_ne_nil (split_ne_nil sep rest)
      rw [e]
      rfl

/-- The parts with separators between them are the text again. -/
lemma intercalate_split (sep : Char) (t : Text) : [sep].intercalate (split sep t) = t := by
  rw [split_eq_splitOn]
  exact List.intercalate_splitOn sep

/-- What was put together from parts is cut into them. -/
lemma split_intercalate {sep : Char} {parts : List Text} (h : ∀ part ∈ parts, sep ∉ part)
    (ne : parts ≠ []) : split sep ([sep].intercalate parts) = parts := by
  rw [split_eq_splitOn]
  exact List.splitOn_intercalate sep h ne

/-- A text is cut at the first occurrence of a character. -/
lemma cut_append {mark : Char} {before : Text} (h : mark ∉ before) (after : Text) :
    cut [mark] (before ++ mark :: after) = some (before, after) := by
  induction before with
  | nil => simp [cut]
  | cons c before ih =>
    have ne : mark ≠ c := fun e => h (e ▸ List.mem_cons_self)
    have rest := ih fun mem => h (List.mem_cons_of_mem _ mem)
    simp [cut, ne, rest]

/-- No part holds the separator. -/
lemma not_mem_of_mem_split {sep : Char} {t part : Text} (h : part ∈ split sep t) : sep ∉ part := by
  induction t generalizing part with
  | nil =>
    rw [split, List.mem_singleton] at h
    simp [h]
  | cons c rest ih =>
    unfold split at h
    split at h
    · rcases List.mem_cons.1 h with rfl | h
      · exact List.not_mem_nil
      · exact ih h
    · rename_i ne
      split at h
      · rw [List.mem_singleton] at h
        simpa [h] using Ne.symm ne
      · rename_i first others e
        rcases List.mem_cons.1 h with rfl | h
        · have first := ih (e ▸ List.mem_cons_self)
          simpa [first] using Ne.symm ne
        · exact ih (e ▸ List.mem_cons_of_mem _ h)

/-- One more part comes behind one more separator. -/
lemma intercalate_snoc {sep part : Text} {parts : List Text} (ne : parts ≠ []) :
    sep.intercalate (parts ++ [part]) = sep.intercalate parts ++ sep ++ part := by
  induction parts with
  | nil => exact absurd rfl ne
  | cons first parts ih =>
    cases parts with
    | nil => simp [List.intercalate_cons_cons, List.intercalate_singleton]
    | cons second parts =>
      rw [List.cons_append, List.cons_append, List.intercalate_cons_cons, ← List.cons_append,
        ih (List.cons_ne_nil _ _), List.intercalate_cons_cons]
      simp

/-- Without some of the parts, the text has less in it. -/
lemma intercalate_sublist {sep : Text} {parts parts' : List Text} (h : parts.Sublist parts') :
    (sep.intercalate parts).Sublist (sep.intercalate parts') := by
  induction h with
  | slnil => exact List.Sublist.refl _
  | @cons parts parts' part _ ih =>
    cases parts' with
    | nil => exact ih.trans (List.nil_sublist _)
    | cons next parts' =>
      rw [List.intercalate_cons_cons]
      exact ih.trans (List.sublist_append_right _ _)
  | @cons_cons parts parts' part h ih =>
    cases parts' with
    | nil =>
      cases h
      exact List.Sublist.refl _
    | cons next parts' =>
      rw [List.intercalate_cons_cons]
      cases parts with
      | nil =>
        rw [List.intercalate_singleton]
        exact (List.sublist_append_left _ _).trans (List.sublist_append_left _ _)
      | cons next parts =>
        rw [List.intercalate_cons_cons]
        exact (List.Sublist.refl _).append ih

end Sigil.Text
