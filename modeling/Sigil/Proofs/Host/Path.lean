import Mathlib.Data.List.Induction
import Mathlib.Data.List.TakeWhile
import Mathlib.Tactic.Common
import Sigil.Host.Files
import Sigil.Proofs.Text.Bytes
import Sigil.Proofs.Text.Parts

/-!
# The directory of a file

The path of a file can be taken apart into the path of its directory and its name, and put together
again. What comes out may be another path: idle parts in front of the name are lost (`join_parent`).
It leads to the same file, since idle parts lead nowhere (`FileTree.foldlM_step_active`), and it is
no longer than the one that was taken apart (`FileTree.files_join_parent`).
-/

namespace Sigil

namespace Path

/-- A path of several parts is absolute if and only if its first part is empty. -/
lemma isAbsolute_intercalate {part : Text} (h : '/' ∉ part) (next : Text) (parts : List Text) :
    isAbsolute (['/'].intercalate (part :: next :: parts)) = part.isEmpty := by
  rw [List.intercalate_cons_cons]
  cases part with
  | nil => rfl
  | cons c part =>
    have ne : c ≠ '/' := fun e => h (e ▸ List.mem_cons_self)
    simp [isAbsolute, ne]

/-- A single part is not absolute. -/
lemma isAbsolute_of_not_mem {part : Text} (h : '/' ∉ part) : isAbsolute part = false := by
  cases part with
  | nil => rfl
  | cons c part =>
    have ne : c ≠ '/' := fun e => h (e ▸ List.mem_cons_self)
    simp [isAbsolute, ne]

/-- A name is joined to a path as one more part. -/
lemma join_intercalate {name part : Text} {parts : List Text} (hn : '/' ∉ name)
    (hp : '/' ∉ part) (ne : part ≠ []) :
    join (['/'].intercalate (parts ++ [part])) name =
      ['/'].intercalate (parts ++ [part] ++ [name]) := by
  rw [Text.intercalate_snoc (List.append_ne_nil_of_right_ne_nil _ (List.cons_ne_nil _ _))]
  obtain ⟨front, e⟩ : ∃ front, ['/'].intercalate (parts ++ [part]) = front ++ part := by
    cases parts with
    | nil => exact ⟨[], List.intercalate_singleton⟩
    | cons first parts => exact ⟨_, Text.intercalate_snoc (List.cons_ne_nil _ _)⟩
  rw [e]
  have last : (front ++ part).getLast? ≠ some '/' := by
    rw [List.getLast?_append, List.getLast?_eq_some_getLast ne, Option.some_or]
    intro h
    exact hp (Option.some.inj h ▸ List.getLast_mem ne)
  rw [join, isAbsolute_of_not_mem hn, if_neg (by simp [ne]), if_neg last]
  simp

/-- The parts of a path up to the last that leads somewhere, if there is one, and idle ones. -/
lemma idle_or_split (parts : List Text) :
    (∀ part ∈ parts, isIdle part = true) ∨ ∃ front part idle, parts = front ++ [part] ++ idle ∧
      isIdle part = false ∧ ∀ part ∈ idle, isIdle part = true := by
  induction parts using List.reverseRecOn with
  | nil => exact .inl nofun
  | append_singleton parts last ih =>
    cases hl : isIdle last with
    | false => exact .inr ⟨parts, last, [], (List.append_nil _).symm, hl, nofun⟩
    | true =>
      obtain all | ⟨front, part, idle, rfl, hp, all⟩ := ih
      · refine .inl fun part mem => ?_
        rcases List.mem_append.1 mem with mem | mem
        · exact all part mem
        · exact List.mem_singleton.1 mem ▸ hl
      · refine .inr ⟨front, part, idle ++ [last], by simp, hp, fun part mem => ?_⟩
        rcases List.mem_append.1 mem with mem | mem
        · exact all part mem
        · exact List.mem_singleton.1 mem ▸ hl

/-- The directory of a file ends with its last part that leads somewhere. -/
lemma parent_of_split {file name part : Text} {front idle : List Text}
    (parts : Text.split '/' file = front ++ [part] ++ idle ++ [name])
    (active : isIdle name = false) (hp : isIdle part = false)
    (all : ∀ part ∈ idle, isIdle part = true) :
    parent file = ['/'].intercalate (front ++ [part]) := by
  have kept : (idle.reverse ++ (part :: front.reverse)).dropWhile isIdle =
      part :: front.reverse := by
    rw [List.dropWhile_append_of_pos (by simpa using all),
      List.dropWhile_cons_of_neg (by simp [hp])]
  simp [parent, parts, active, kept]

/-- Of a directory whose parts are all idle at most the first is kept. -/
lemma parent_of_idle {file name : Text} {above : List Text}
    (parts : Text.split '/' file = above ++ [name]) (active : isIdle name = false)
    (all : ∀ part ∈ above, isIdle part = true) :
    parent file = if isAbsolute file then ['/']
      else if (above ++ [name]).head? = some ['.'] then ['.'] else [] := by
  have none : above.reverse.dropWhile isIdle = [] :=
    List.dropWhile_eq_nil_iff.2 (by simpa using all)
  simp [parent, parts, active, none]

/-- If nothing above the name leads anywhere, at most the first part is kept. -/
lemma join_parent_of_idle {file name : Text} {above : List Text}
    (parts : Text.split '/' file = above ++ [name]) (active : isIdle name = false)
    (slashless : ∀ part ∈ above ++ [name], '/' ∉ part) (all : ∀ part ∈ above, isIdle part = true) :
    join (parent file) name = ['/'].intercalate (above.take 1 ++ [name]) := by
  have hn : '/' ∉ name := slashless name (by simp)
  have whole : file = ['/'].intercalate (above ++ [name]) := by
    rw [← parts, Text.intercalate_split]
  rw [parent_of_idle parts active all]
  cases above with
  | nil =>
    -- the path is nothing but the name, which is not a single dot
    have dotless : name ≠ ['.'] := by
      rintro rfl
      cases active
    rw [List.nil_append, List.intercalate_singleton] at whole
    simp [whole, isAbsolute_of_not_mem hn, dotless, join]
  | cons first above =>
    obtain ⟨next, others, e⟩ := List.exists_cons_of_ne_nil
      (List.append_ne_nil_of_right_ne_nil above (List.cons_ne_nil name []))
    have absolute : isAbsolute file = first.isEmpty := by
      rw [whole, List.cons_append, e]
      exact isAbsolute_intercalate (slashless first (by simp)) next others
    have idle : first = [] ∨ first = ['.'] := by
      simpa [isIdle] using all first (by simp)
    obtain rfl | rfl := idle
    · simp [absolute, join, isAbsolute_of_not_mem hn, List.intercalate_cons_cons]
    · simp [absolute, join, isAbsolute_of_not_mem hn, List.intercalate_cons_cons]

/-- The path of a file is put together from its directory and its name, without idle parts between
them. -/
lemma join_parent {file name : Text} {above : List Text}
    (parts : Text.split '/' file = above ++ [name]) (active : isIdle name = false) :
    ∃ kept idle, above = kept ++ idle ∧ (∀ part ∈ idle, isIdle part = true) ∧
      (kept = [] → idle = []) ∧ join (parent file) name = ['/'].intercalate (kept ++ [name]) := by
  have slashless : ∀ part ∈ above ++ [name], '/' ∉ part := fun part mem =>
    Text.not_mem_of_mem_split (parts ▸ mem)
  obtain all | ⟨front, part, idle, rfl, hp, all⟩ := idle_or_split above
  · refine ⟨above.take 1, above.drop 1, (List.take_append_drop 1 above).symm, ?_, ?_,
      join_parent_of_idle parts active slashless all⟩
    · exact fun part mem => all part (List.mem_of_mem_drop mem)
    · intro none
      cases above with
      | nil => rfl
      | cons first above => cases none
  · refine ⟨front ++ [part], idle, rfl, all, by simp, ?_⟩
    have ne : part ≠ [] := by
      rintro rfl
      cases hp
    rw [parent_of_split parts active hp all]
    exact join_intercalate (slashless name (by simp)) (slashless part (by simp)) ne

end Path

namespace FileTree

variable {tree : FileTree} {file name : Text} {bytes : List UInt8}

/-- No step leads on from a file. -/
lemma step_of_file {location : Location} (h : tree.itemAt location = .file bytes) (part : Text) :
    tree.step location part = .error .notDirectory := by
  rw [step, h]

/-- A part that stands for the directory itself leads nowhere else. -/
lemma step_of_idle {location : Location} (h : tree.itemAt location = .directory) {part : Text}
    (idle : Path.isIdle part = true) : tree.step location part = .ok location := by
  rw [step, h]
  exact if_pos idle

/-- Before a name, only the parts count that lead somewhere. -/
lemma foldlM_step_active (parts : List Text) (name : Text) (location : Location) :
    (parts ++ [name]).foldlM tree.step location =
      (parts.filter (fun part => !Path.isIdle part) ++ [name]).foldlM tree.step location := by
  induction parts generalizing location with
  | nil => rfl
  | cons part parts ih =>
    cases idle : Path.isIdle part with
    | false =>
      rw [List.filter_cons_of_pos (by simp [idle]), List.cons_append, List.cons_append,
        List.foldlM_cons, List.foldlM_cons]
      simp only [ih]
    | true =>
      rw [List.filter_cons_of_neg (by simp [idle]), List.cons_append, List.foldlM_cons]
      cases h : tree.itemAt location with
      | directory =>
        rw [step_of_idle h idle]
        exact ih location
      | file bytes =>
        rw [step_of_file h]
        -- whatever comes next cannot be done either
        cases parts.filter (fun part => !Path.isIdle part) with
        | nil => rw [List.nil_append, List.foldlM_cons, step_of_file h]; rfl
        | cons next others => rw [List.cons_append, List.foldlM_cons, step_of_file h]; rfl

/-- A path that ends with an idle part leads to no file. -/
lemma itemAt_of_idle {parts : List Text} {last : Text} {location location' : Location}
    (idle : Path.isIdle last = true)
    (h : (parts ++ [last]).foldlM tree.step location = .ok location') :
    tree.itemAt location' = .directory := by
  induction parts generalizing location with
  | nil =>
    rw [List.nil_append, List.foldlM_cons] at h
    cases e : tree.itemAt location with
    | directory =>
      rw [step_of_idle e idle] at h
      cases h
      exact e
    | file bytes =>
      rw [step_of_file e] at h
      cases h
  | cons part parts ih =>
    rw [List.cons_append, List.foldlM_cons] at h
    cases e : tree.step location part with
    | error fault =>
      rw [e] at h
      cases h
    | ok next =>
      rw [e] at h
      exact ih h

/-- Where a path starts. -/
def startOf (path : Text) : Location :=
  if Path.isAbsolute path then .top else .known {}

/-- What there is to a path that leads to a file. -/
lemma files_eq_ok_iff : tree.files file = .ok bytes ↔
    '\x00' ∉ file ∧ file ≠ [] ∧ Text.byteLength file ≤ maxPathLength ∧
      ∃ location, (Text.split '/' file).foldlM tree.step (startOf file) = .ok location ∧
        tree.itemAt location = .file bytes := by
  rw [files, locate]
  constructor
  · intro h
    split at h
    · cases h
    split at h
    · cases h
    split at h
    · cases h
    rename_i nul ne long
    refine ⟨by simpa using nul, by simpa using ne, Nat.le_of_not_lt long, ?_⟩
    change (List.foldlM tree.step (startOf file) _ >>= _) = _ at h
    cases e : (Text.split '/' file).foldlM tree.step (startOf file) with
    | error fault =>
      rw [e] at h
      cases h
    | ok location =>
      rw [e] at h
      dsimp only [Bind.bind, Except.bind] at h
      refine ⟨location, rfl, ?_⟩
      split at h
      · cases h
        assumption
      · cases h
  · rintro ⟨nul, ne, short, location, e, item⟩
    rw [if_neg (by simpa using nul), if_neg (by simpa using ne), if_neg (Nat.not_lt.2 short)]
    change (List.foldlM tree.step (startOf file) _ >>= _) = _
    rw [e]
    dsimp only [Bind.bind, Except.bind]
    rw [item]

/-- The last part of a path that leads to a file is the file's name. -/
lemma split_of_files (h : tree.files file = .ok bytes) (named : Path.fileName? file = some name) :
    ∃ above, Text.split '/' file = above ++ [name] ∧ Path.isIdle name = false := by
  obtain ⟨_, _, _, location, led, item⟩ := files_eq_ok_iff.1 h
  obtain parts | ⟨above, last, parts⟩ := List.eq_nil_or_concat (Text.split '/' file)
  · exact absurd parts (Text.split_ne_nil _ _)
  · rw [List.concat_eq_append] at parts
    have active : Path.isIdle last = false := by
      cases idle : Path.isIdle last with
      | false => rfl
      | true =>
        rw [parts] at led
        cases item.symm.trans (itemAt_of_idle idle led)
    have steps : Path.steps file = above.filter (fun part => !Path.isIdle part) ++ [last] := by
      simp [Path.steps, parts, active]
    obtain ⟨found, _⟩ := Option.filter_eq_some_iff.1 named
    obtain rfl : last = name := by simpa [steps] using found
    exact ⟨above, parts, active⟩

/-- A file is found again below its directory, by its name. -/
lemma files_join_parent (h : tree.files file = .ok bytes)
    (named : Path.fileName? file = some name) :
    tree.files (Path.join (Path.parent file) name) = .ok bytes := by
  obtain ⟨above, parts, active⟩ := split_of_files h named
  obtain ⟨nul, _, short, location, led, item⟩ := files_eq_ok_iff.1 h
  obtain ⟨kept, idle, rfl, all, first, joined⟩ := Path.join_parent parts active
  have whole : file = ['/'].intercalate (kept ++ idle ++ [name]) := by
    rw [← parts, Text.intercalate_split]
  have slashless : ∀ part ∈ kept ++ idle ++ [name], '/' ∉ part := fun part mem =>
    Text.not_mem_of_mem_split (parts ▸ mem)
  have less : (Path.join (Path.parent file) name).Sublist file := by
    rw [joined, whole]
    exact Text.intercalate_sublist (by simp)
  have parts' : Text.split '/' (Path.join (Path.parent file) name) = kept ++ [name] := by
    rw [joined]
    refine Text.split_intercalate (fun part mem => slashless part ?_) (by simp)
    rcases List.mem_append.1 mem with mem | mem <;> simp [mem]
  -- the first part of the path is kept, and it says where the path starts
  have start : startOf (Path.join (Path.parent file) name) = startOf file := by
    cases kept with
    | nil => rw [joined, whole, first rfl, List.append_nil]
    | cons part kept =>
      have slash := slashless part (by simp)
      obtain ⟨next, others, e⟩ := List.exists_cons_of_ne_nil
        (List.append_ne_nil_of_right_ne_nil kept (List.cons_ne_nil name []))
      obtain ⟨next', others', e'⟩ := List.exists_cons_of_ne_nil
        (List.append_ne_nil_of_right_ne_nil (kept ++ idle) (List.cons_ne_nil name []))
      rw [startOf, startOf, joined, whole, List.cons_append, e, List.cons_append,
        List.cons_append, e', Path.isAbsolute_intercalate slash, Path.isAbsolute_intercalate slash]
  refine files_eq_ok_iff.2 ⟨fun mem => nul (less.subset mem), ?_, ?_, location, ?_, item⟩
  · intro none
    rw [none] at parts'
    obtain rfl : name = [] := by simpa [Text.split] using (congrArg List.getLast? parts').symm
    cases active
  · exact Nat.le_trans (Text.byteLength_le_of_sublist less) short
  · -- the idle parts that are left out lead nowhere
    have inactive : idle.filter (fun part => !Path.isIdle part) = [] :=
      List.filter_eq_nil_iff.2 (by simpa using all)
    rw [parts, foldlM_step_active, List.filter_append, inactive, List.append_nil] at led
    rw [parts', start, foldlM_step_active]
    exact led

end FileTree

end Sigil
