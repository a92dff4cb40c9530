import Mathlib.Tactic.Common
import Sigil.Proofs.Node.Rendering

/-!
# The normal form of a source

To read a source and to write its nodes again brings the source into a normal form. The first time
something may change: the texts of brackets are trimmed and put in front of what the brackets hold,
brackets that were left open are closed, and runs of blanks at the end are dropped. The second time
nothing changes any more (`render_normal_form`), whatever the source was.

A row that was read again is written as before (`Row.write_reread`), because the spaces that its
brackets have got are trimmed away. Where the end was trimmed as well, the row is written as before
up to blanks at the end (`Row.trimEnd_write_again`), and these are trimmed once more. Of the nodes,
only the runs of blanks at the end are lost (`Row.core`).
-/

namespace Sigil

/-- A run outside all brackets, and only of blanks. -/
def Node.isBlankRun (node : Node) : Bool :=
  (node.kind == .number || node.kind == .array || node.kind == .other) && node.parent.isNone &&
    node.value.all Text.isBlank

/-- What it takes to be a run of blanks. -/
lemma Node.isBlankRun_iff {node : Node} : node.isBlankRun = true ↔
    node.kind.IsRun ∧ node.parent = none ∧ ∀ c ∈ node.value, Text.isBlank c = true := by
  simp [isBlankRun, Kind.IsRun, or_assoc, and_assoc]

/-- Blanks that end the second text can be dropped before or after it is appended. -/
lemma Text.trimEnd_append_trimEnd (t u : Text) : trimEnd (t ++ trimEnd u) = trimEnd (t ++ u) := by
  have blank : ∀ c ∈ u.rtakeWhile isBlank, isBlank c = true := fun c => List.mem_rtakeWhile_imp
  have parts : u = trimEnd u ++ u.rtakeWhile isBlank :=
    List.rdropWhile_append_rtakeWhile.symm
  calc trimEnd (t ++ trimEnd u)
      = trimEnd (t ++ trimEnd u ++ u.rtakeWhile isBlank) := (trimEnd_append_blank blank).symm
    _ = trimEnd (t ++ u) := by rw [List.append_assoc, ← parts]

/-! ### Writing again -/

namespace Row

variable {row : Row} {outside : Bool}

/-- A row that was read again is written as before. -/
lemma write_reread (regular : row.Regular outside) : row.reread.write = row.write := by
  induction regular with
  | nil => rfl
  | keyword _ _ ih => rw [reread, write, write, ih]
  | string _ _ ih => rw [reread, write, write, ih]
  | run _ _ _ ih => rw [reread, write, write, ih]
  | @bracket _ before kind value inside _ br _ _ ih ih' =>
    obtain ⟨first, last, br'⟩ := Scan.exists_brackets br
    rw [reread, Scan.write_bracket br', Scan.write_bracket br', ih]
    rw [Scan.writeBracket, Scan.writeBracket, trim_padding, size_reread, ih']

/-- A leaf is written alike, up to blanks at the end, if it has lost blanks at its end. -/
lemma trimEnd_write_leaf {before before' : Row} {kind : Kind} {value first : Text}
    (written : ∀ (row : Row) value,
      (Row.leaf row kind value).write = row.write ++ first ++ value ++ [' '])
    (same : before'.write = before.write) :
    Text.trimEnd (Row.leaf before' kind (Text.trimEnd value)).write =
      Text.trimEnd (Row.leaf before kind value).write := by
  have space : ∀ c ∈ [' '], Text.isBlank c = true := List.forall_mem_singleton.2 (by decide)
  rw [written, written, same, Text.trimEnd_append_blank space, Text.trimEnd_append_blank space]
  exact Text.trimEnd_append_trimEnd _ _

/-- A row that was read again without the blanks at its end is written as before, without them. -/
lemma trimEnd_write_again (regular : row.Regular true) :
    Text.trimEnd row.again.write = Text.trimEnd row.write := by
  induction row with
  | nil => rfl
  | leaf before kind value ih =>
    cases regular with
    | keyword regular text =>
      have written : ∀ (row : Row) value, (Row.leaf row .keyword value).write =
          row.write ++ ['@'] ++ value ++ [' '] := by simp [write, Nodes.renderNode]
      exact trimEnd_write_leaf written (write_reread regular)
    | string regular text =>
      exact congrArg Text.trimEnd (write_reread (.string regular text))
    | run regular ne text =>
      rw [again]
      by_cases blank : ∀ c ∈ value, Text.isBlank c = true
      · have space : ∀ c ∈ [' '], Text.isBlank c = true := List.forall_mem_singleton.2 (by decide)
        rw [if_pos ⟨rfl, List.all_eq_true.2 blank⟩, ih regular, Scan.write_run,
          Text.trimEnd_append_blank space, Text.trimEnd_append_blank blank]
      · have written : ∀ (row : Row) value, (Row.leaf row .other value).write =
            row.write ++ [] ++ value ++ [' '] := by simp [write, Nodes.renderNode]
        rw [if_neg (by simpa using blank), if_neg Kind.noConfusion]
        exact trimEnd_write_leaf written (write_reread regular)
  | bracket before kind value inside =>
    exact congrArg Text.trimEnd (write_reread regular)

/-! ### What is lost -/

/-- The row without the runs of blanks at its end. -/
def core : Row → Row
  | nil => nil
  | leaf before kind value =>
    if kind = .other ∧ value.all Text.isBlank then before.core else leaf before kind value
  | bracket before kind value inside => bracket before kind value inside

/-- Without the runs of blanks at its end, a row is read again in the same way. -/
lemma again_core (row : Row) : row.core.again = row.again := by
  induction row with
  | nil => rfl
  | leaf before kind value ih =>
    by_cases blank : kind = .other ∧ value.all Text.isBlank
    · rw [core, if_pos blank, again, if_pos blank, ih]
    · rw [core, if_neg blank]
  | bracket before kind value inside => rfl

/-- The core of a row does not end with a run of blanks. -/
lemma not_endsBlank_core (row : Row) : ¬ row.core.EndsBlank := by
  induction row with
  | nil => exact not_false
  | leaf before kind value ih =>
    by_cases blank : kind = .other ∧ value.all Text.isBlank
    · rw [core, if_pos blank]
      exact ih
    · rw [core, if_neg blank]
      intro ends
      cases kind with
      | other => exact blank ⟨rfl, List.all_eq_true.2 ends⟩
      | _ => exact ends
  | bracket before kind value inside => exact not_false

/-- The core of a row that can be read can be read. -/
lemma Regular.core (regular : row.Regular true) : row.core.Regular true := by
  induction row with
  | nil => exact regular
  | leaf before kind value ih =>
    by_cases blank : kind = .other ∧ value.all Text.isBlank
    · rw [Row.core, if_pos blank]
      apply ih
      cases regular <;> assumption
    · rw [Row.core, if_neg blank]
      exact regular
  | bracket before kind value inside => exact regular

/-- If the row does not end with a run of blanks, neither does its list of nodes. -/
lemma rdropWhile_of_not_endsBlank (regular : row.Regular true) (h : ¬ row.EndsBlank) :
    ((row.nodes none 0).map Node.settle).rdropWhile Node.isBlankRun =
      (row.nodes none 0).map Node.settle := by
  rw [List.rdropWhile_eq_self_iff]
  intro ne run
  apply h
  rw [← endBlank_iff regular]
  exact ⟨_, List.getLast?_eq_some_getLast ne, Node.isBlankRun_iff.1 run⟩

/-- The nodes that are lost are the runs of blanks at the end of the list. -/
lemma nodes_core (regular : row.Regular true) : (row.core.nodes none 0).map Node.settle =
    ((row.nodes none 0).map Node.settle).rdropWhile Node.isBlankRun := by
  induction row with
  | nil => rfl
  | leaf before kind value ih =>
    by_cases blank : kind = .other ∧ value.all Text.isBlank
    · rw [core, if_pos blank]
      obtain ⟨rfl, blank⟩ := blank
      cases regular with
      | run regular ne text =>
        have run : (Node.settle { kind := .other, parent := none, value }).isBlankRun = true :=
          Node.isBlankRun_iff.2 ⟨Kind.ofRun_isRun value, rfl, List.all_eq_true.1 blank⟩
        rw [nodes, List.map_append, List.map_singleton, List.rdropWhile_concat_pos _ _ _ run]
        exact ih regular
    · have same : (leaf before kind value).core = leaf before kind value := if_neg blank
      rw [same, rdropWhile_of_not_endsBlank regular (same ▸ not_endsBlank_core _)]
  | bracket before kind value inside =>
    exact (rdropWhile_of_not_endsBlank regular not_false).symm

end Row

/-- The nodes of a row that was written and read again. -/
lemma ofSource_render_row {row : Row} (regular : row.Regular true) :
    Nodes.ofSource (Nodes.render ((row.nodes none 0).map Node.settle)) =
      (row.again.nodes none 0).map Node.settle := by
  rw [Nodes.render_row, Nodes.ofSource, Scan.feed_trimEnd_write regular]

/-- The nodes of a source are written in a normal form: the nodes that are read from it are written
in exactly the same way, whatever the source was. They are the nodes of the source, but for the
blanks around their texts, and without the runs of blanks at the end. -/
theorem render_normal_form (source : Text) :
    let nodes := Nodes.ofSource source
    let normal := Nodes.render nodes
    Nodes.render (Nodes.ofSource normal) = normal ∧
      List.Forall₂ Node.Alike (Nodes.ofSource normal) (nodes.rdropWhile Node.isBlankRun) := by
  obtain ⟨row, regular, e⟩ := ofSource_row source
  simp only [e, ofSource_render_row regular]
  constructor
  · rw [Nodes.render_row, Nodes.render_row, Row.trimEnd_write_again regular]
  · rw [← Row.nodes_core regular, ← Row.again_core]
    exact Row.again_alike regular.core row.not_endsBlank_core

end Sigil
