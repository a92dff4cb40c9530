import Mathlib.Data.List.DropRight
import Mathlib.Tactic.Common
import Sigil.Proofs.Text.Parts

/-!
# Trimmed texts

A text is trimmed if it neither begins nor ends with a blank (`trim_eq_self`), and trimming
makes it so (`trim_trim`). Blanks at the end do not count (`trim_append_blank`, `trim_trimEnd`). A
list of trimmed items that are not empty can be read back from the text
in which they stand between commas (`items_intercalate`).
-/

namespace Sigil.Text

variable {t : Text}

/-- Trimming at the end is dropping from the right, as in the library. -/
lemma trimEnd_eq_rdropWhile (t : Text) : trimEnd t = t.rdropWhile isBlank :=
  rfl

/-- Trimming adds no characters. -/
lemma trim_subset (t : Text) : trim t ⊆ t :=
  List.Subset.trans (List.rdropWhile_prefix isBlank _).subset (List.dropWhile_subset isBlank)

/-- A text stays as it is if it neither begins nor ends with a blank. -/
lemma trim_eq_self (first : ∀ c ∈ t.head?, isBlank c = false)
    (last : ∀ c ∈ t.getLast?, isBlank c = false) : trim t = t := by
  cases t with
  | nil => rfl
  | cons c t =>
    have start : (c :: t).dropWhile isBlank = c :: t :=
      List.dropWhile_cons_of_neg (by simp [first c rfl])
    rw [trim, start, trimEnd_eq_rdropWhile, List.rdropWhile_eq_self_iff]
    intro ne
    simpa using last _ (List.getLast?_eq_some_getLast ne)

/-- A trimmed text neither begins nor ends with a blank. -/
lemma trim_ends (t : Text) :
    (∀ c ∈ (trim t).head?, isBlank c = false) ∧ ∀ c ∈ (trim t).getLast?, isBlank c = false := by
  constructor
  · intro c first
    obtain ⟨rest, e⟩ := List.rdropWhile_prefix isBlank (t.dropWhile isBlank)
    have first' : (t.dropWhile isBlank).head? = some c := by
      rw [← e, List.head?_append, ← trimEnd_eq_rdropWhile, ← trim, first, Option.some_or]
    have := List.head?_dropWhile_not isBlank t
    simpa [first'] using this
  · intro c last
    have ne : trim t ≠ [] := by
      intro e
      rw [e] at last
      cases last
    obtain rfl : (trim t).getLast ne = c := by
      simpa [List.getLast?_eq_some_getLast ne] using last
    exact Bool.eq_false_iff.2 (List.rdropWhile_last_not isBlank (t.dropWhile isBlank) ne)

/-- To trim twice is to trim once. -/
lemma trim_trim (t : Text) : trim (trim t) = trim t :=
  trim_eq_self (trim_ends t).1 (trim_ends t).2

/-! ### Blanks at the end -/

section
variable {u : Text}

/-- Blanks at the end are trimmed away with the blanks in front of them. -/
lemma trimEnd_append_blank (h : ∀ c ∈ u, isBlank c = true) : trimEnd (t ++ u) = trimEnd t := by
  have gone : u.reverse.dropWhile isBlank = [] := by simpa using h
  simp [trimEnd, List.dropWhile_append, gone]

/-- A text that is not blank stops the trimming at its end. -/
lemma trimEnd_append (h : ¬ ∀ c ∈ u, isBlank c = true) : trimEnd (t ++ u) = t ++ trimEnd u := by
  have kept : u.reverse.dropWhile isBlank ≠ [] := by simpa using h
  simp [trimEnd, List.dropWhile_append, kept]

/-- Blanks at the end do not matter to a trimmed text. -/
lemma trim_append_blank (h : ∀ c ∈ u, isBlank c = true) : trim (t ++ u) = trim t := by
  have gone : u.dropWhile isBlank = [] := by simpa using h
  rw [trim, List.dropWhile_append]
  split
  · rename_i empty
    rw [trim, List.isEmpty_iff.1 empty, gone]
  · rw [trimEnd_append_blank h, trim]

/-- A blank at the start does not matter to a trimmed text. -/
lemma trim_cons_blank {c : Char} (h : isBlank c = true) : trim (c :: t) = trim t := by
  rw [trim, List.dropWhile_cons_of_pos h, trim]

/-- Trimming the end first makes no difference. -/
lemma trim_trimEnd (t : Text) : trim (trimEnd t) = trim t := by
  have blank : ∀ c ∈ t.rtakeWhile isBlank, isBlank c = true := fun c => List.mem_rtakeWhile_imp
  rw [← trim_append_blank blank, trimEnd_eq_rdropWhile, List.rdropWhile_append_rtakeWhile]

/-- A visible first character stays when the end is trimmed. -/
lemma trimEnd_cons {c : Char} (h : isBlank c = false) : trimEnd (c :: t) = c :: trimEnd t := by
  by_cases blank : ∀ d ∈ t, isBlank d = true
  · have gone : trimEnd t = [] := trimEnd_append_blank (t := []) blank
    rw [← List.singleton_append, trimEnd_append_blank blank, gone]
    simp [trimEnd, h]
  · exact trimEnd_append (t := [c]) blank

/-- Blanks behind a visible character are dropped. -/
lemma trimEnd_space {c : Char} (h : isBlank c = false) :
    trimEnd (t ++ [c] ++ [' ']) = t ++ [c] := by
  have space : ∀ d ∈ [' '], isBlank d = true := List.forall_mem_singleton.2 (by decide)
  have visible : ¬ ∀ d ∈ [c], isBlank d = true := fun all => by simp [h] at all
  rw [trimEnd_append_blank space, trimEnd_append visible, trimEnd_cons h]
  rfl

/-- Nothing is left of a text if and only if it is blank. -/
lemma trimEnd_eq_nil_iff : trimEnd t = [] ↔ ∀ c ∈ t, isBlank c = true :=
  List.rdropWhile_eq_nil_iff

/-- If anything is left, the first character is. -/
lemma head?_trimEnd (h : trimEnd t ≠ []) : (trimEnd t).head? = t.head? := by
  obtain ⟨rest, e⟩ := List.rdropWhile_prefix isBlank t
  exact (List.head?_append_of_ne_nil _ h).symm.trans (congrArg List.head? e)

end

/-- Items between commas are read one by one, without the blanks around them. -/
lemma items_intercalate {parts : List Text} (comma : ∀ part ∈ parts, ',' ∉ part)
    (ne : ∀ part ∈ parts, trim part ≠ []) :
    items ([','].intercalate parts) = parts.map trim := by
  cases parts with
  | nil => rfl
  | cons part parts =>
    rw [items, split_intercalate comma (List.cons_ne_nil _ _), List.filter_eq_self]
    intro item mem
    obtain ⟨part', listed, rfl⟩ := List.mem_map.1 mem
    simpa using ne part' listed

end Sigil.Text
