import Mathlib.Data.List.Chain
import Mathlib.Tactic.Common
import Sigil.Node.Bound
import Sigil.Node.Placeholder
import Sigil.Proofs.Text.Occurrence

/-!
# Texts with placeholders

A text is filled in piece by piece. What comes out is again a text that may hold placeholders, and
it can be taken apart into the pieces one expects only if no placeholder has come about by accident:
`Legible` says when a list of pieces can be read back from its text (`ofText_source`), and that
filling in keeps it so (`Legible.fill`), provided that the texts filled in are harmless. The pieces
of any text are legible, up to a last placeholder that may stay open (`ofText_cases`). So the pieces
of a text that was filled in are those of the text before, filled in one by one (`ofText_fill`), and
filling in some placeholders and later the others is the same as filling in all of them at once
(`flatMap_fill_fill`).

Once a placeholder is filled in, it is gone. A change of its variable is then followed by replacing
the old text by the new one, wherever it occurs. `replace_written` says when this is the same as
filling in the new text from the start: when the old text is found nowhere but where it was filled
in.
-/

namespace Sigil

/-! ### Pieces that can be read back -/

namespace Piece

/-- The pieces do not make a mark together. -/
def Apart (p q : Piece) : Prop :=
  p = .char '[' → q ≠ .char '#'

instance : DecidableRel Apart := fun p q =>
  inferInstanceAs (Decidable (p = .char '[' → q ≠ .char '#'))

/-- The pieces can be told apart in their text. -/
structure Legible (ps : List Piece) : Prop where
  apart : ps.IsChain Apart
  closed : ∀ inside, .hole inside ∈ ps → ']' ∉ inside

variable {ps : List Piece} {t : Text}

/-- No pieces are legible. -/
lemma Legible.nil : Legible [] :=
  ⟨.nil, nofun⟩

/-- What comes behind a piece is legible if all of it is. -/
lemma Legible.tail {p : Piece} (h : Legible (p :: ps)) : Legible ps :=
  ⟨(List.isChain_cons.1 h.apart).2, fun inside mem => h.closed inside (List.mem_cons_of_mem _ mem)⟩

/-- A character can be put in front, unless it makes a mark with the next one. -/
lemma Legible.cons_char {c : Char} (h : Legible ps) (apart : c = '[' → .char '#' ∉ ps.head?) :
    Legible (.char c :: ps) := by
  refine ⟨List.isChain_cons.2 ⟨fun q first e => ?_, h.apart⟩, fun inside mem => ?_⟩
  · rintro rfl
    exact apart (Piece.char.inj e) first
  · exact h.closed inside (by simpa using mem)

/-- A placeholder can be put in front if it does not hold a closing mark. -/
lemma Legible.cons_hole {inside : Text} (h : Legible ps) (closed : ']' ∉ inside) :
    Legible (.hole inside :: ps) := by
  refine ⟨List.isChain_cons.2 ⟨nofun, h.apart⟩, fun inside' mem => ?_⟩
  rcases List.mem_cons.1 mem with same | mem
  · cases same
    exact closed
  · exact h.closed inside' mem

/-- An open placeholder is closed by the next closing mark. -/
lemma scan_hole {inside rest : Text} (acc : Text) (h : ']' ∉ inside) :
    scan (some acc) (inside ++ ']' :: rest) =
      .hole (acc.reverse ++ inside) :: scan none rest := by
  induction inside generalizing acc with
  | nil => simp [scan]
  | cons c inside ih =>
    have ne : c ≠ ']' := fun e => h (e ▸ List.mem_cons_self)
    have tail := ih (c :: acc) (fun mem => h (List.mem_cons_of_mem _ mem))
    rw [List.cons_append, scan]
    · simp [tail]
    · exact ne

/-- A character that opens no placeholder stands for itself. -/
lemma scan_char {c : Char} {rest : Text} (h : c = '[' → rest.head? ≠ some '#') :
    scan none (c :: rest) = .char c :: scan none rest := by
  rw [scan]
  rintro rest' rfl rfl
  exact h rfl rfl

end Piece

/-- The end of a text that opens a placeholder and does not close it, or nothing. -/
inductive Text.Dangling : Text → Prop where
  | none :
    Dangling []
  | mark {rest : Text} :
    ']' ∉ rest →
    Dangling ('[' :: '#' :: rest)

namespace Piece

variable {ps : List Piece} {t tail : Text}

/-- A placeholder that is never closed is so many characters. -/
lemma scan_open {rest : Text} (acc : Text) (h : ']' ∉ rest) :
    scan (some acc) rest = ('[' :: '#' :: acc.reverse ++ rest).map .char := by
  induction rest generalizing acc with
  | nil => simp [scan]
  | cons c rest ih =>
    have ne : c ≠ ']' := fun e => h (e ▸ List.mem_cons_self)
    have tail := ih (c :: acc) (fun mem => h (List.mem_cons_of_mem _ mem))
    rw [scan]
    · simp [tail]
    · exact ne

/-- Nothing of what is not closed is a placeholder. -/
lemma scan_dangling (h : tail.Dangling) : scan none tail = tail.map .char := by
  cases h with
  | none => rfl
  | mark closed =>
    rw [scan, scan_open [] closed]
    rfl

/-- Only the first piece can begin with a number sign, for an open end does not. -/
lemma head_source (dangling : tail.Dangling)
    (h : (ps.flatMap source ++ tail).head? = some '#') : .char '#' ∈ ps.head? := by
  cases ps with
  | nil => cases dangling <;> simp at h
  | cons p ps =>
    cases p with
    | hole inside => simp [source] at h
    | char c =>
      obtain rfl : c = '#' := by simpa [source] using h
      exact rfl

/-- Legible pieces are read back from their text, whether or not its end is left open. -/
lemma ofText_source_append (h : Legible ps) (dangling : tail.Dangling) :
    ofText (ps.flatMap source ++ tail) = ps ++ tail.map .char := by
  unfold ofText
  induction ps with
  | nil => exact scan_dangling dangling
  | cons p ps ih =>
    rw [List.flatMap_cons, List.append_assoc]
    cases p with
    | hole inside =>
      have closed : ']' ∉ inside := h.closed inside List.mem_cons_self
      have start : scan none (source (.hole inside) ++ (ps.flatMap source ++ tail)) =
          scan (some []) (inside ++ ']' :: (ps.flatMap source ++ tail)) := by
        simp [source, scan]
      rw [start, scan_hole [] closed, ih h.tail, List.reverse_nil, List.nil_append,
        List.cons_append]
    | char c =>
      have next : c = '[' → (ps.flatMap source ++ tail).head? ≠ some '#' := by
        intro e head
        exact (List.isChain_cons.1 h.apart).1 _ (head_source dangling head) (e ▸ rfl) rfl
      rw [source, List.singleton_append, scan_char next, ih h.tail, List.cons_append]

/-- Legible pieces are read back from their text. -/
lemma ofText_source (h : Legible ps) : ofText (ps.flatMap source) = ps := by
  simpa using ofText_source_append h .none

/-- Characters are written as the text that they are. -/
lemma source_chars (t : Text) : (t.map Piece.char).flatMap source = t := by
  simp [List.flatMap_map, source]

/-- What was cut into pieces is written as it was, an open placeholder included. -/
lemma source_scan (inside : Option Text) (t : Text) : (scan inside t).flatMap source =
    inside.elim t (fun inside => '[' :: '#' :: inside.reverse ++ t) := by
  fun_induction scan inside t with
  | case1 rest ih => simpa using ih
  | case2 c rest _ ih => simpa [source] using ih
  | case3 => rfl
  | case4 inside rest ih => simpa [source] using ih
  | case5 inside c rest _ ih => simpa using ih
  | case6 inside => exact (source_chars ('[' :: '#' :: inside.reverse)).trans (by simp)

/-- The pieces of a text are written as the text. -/
lemma source_ofText (t : Text) : (ofText t).flatMap source = t :=
  source_scan none t

/-- Every text is cut into legible pieces and an end that is left open. -/
lemma scan_cases {inside : Option Text} (h : ∀ text ∈ inside, ']' ∉ text) (t : Text) :
    ∃ (ps : List Piece) (tail : Text), Legible ps ∧ tail.Dangling ∧
      scan inside t = ps ++ tail.map .char := by
  fun_induction scan inside t with
  | case1 rest ih => exact ih (by simp)
  | case2 c rest other ih =>
    obtain ⟨ps, tail, legible, dangling, e⟩ := ih nofun
    refine ⟨.char c :: ps, tail, legible.cons_char fun opens first => ?_, dangling, by simp [e]⟩
    -- a number sign behind the bracket would have been read together with it
    obtain ⟨ps, rfl⟩ := List.head?_eq_some_iff.1 first
    have written := source_scan none rest
    rw [e] at written
    exact other _ opens written.symm
  | case3 => exact ⟨[], [], .nil, .none, rfl⟩
  | case4 inside rest ih =>
    obtain ⟨ps, tail, legible, dangling, e⟩ := ih nofun
    refine ⟨.hole inside.reverse :: ps, tail, legible.cons_hole ?_, dangling, by simp [e]⟩
    simpa using h inside rfl
  | case5 inside c rest ne ih =>
    refine ih ?_
    intro text e
    cases e
    simpa [Ne.symm ne] using h inside rfl
  | case6 inside =>
    exact ⟨[], '[' :: '#' :: inside.reverse, .nil, .mark (by simpa using h inside rfl), rfl⟩

/-- The pieces of a text are legible ones and the characters of an end that is left open. -/
lemma ofText_cases (t : Text) : ∃ (ps : List Piece) (tail : Text), Legible ps ∧ tail.Dangling ∧
    ofText t = ps ++ tail.map .char :=
  scan_cases (by simp) t

/-- What stands between the marks of a placeholder does not hold the closing one. -/
lemma closed_scan {inside : Option Text} {t hole : Text} (h : ∀ text ∈ inside, ']' ∉ text)
    (mem : .hole hole ∈ scan inside t) : ']' ∉ hole := by
  obtain ⟨ps, tail, legible, _, e⟩ := scan_cases h t
  rw [e, List.mem_append] at mem
  rcases mem with mem | mem
  · exact legible.closed hole mem
  · simp at mem

/-! ### Filling in -/

/-- The pieces that a piece becomes when placeholders are filled in as given. -/
def fill (given : Text → Option Text) : Piece → List Piece
  | .char c => [.char c]
  | .hole inside => (given inside).elim [.hole inside] fun t => t.map .char

end Piece

/-- A text that opens no placeholder, neither alone nor together with what stands around it. -/
structure Text.Harmless (t : Text) : Prop where
  ne : t ≠ []
  mark : ¬ ['[', '#'] <:+: t
  first : t.head? ≠ some '#'
  last : t.getLast? ≠ some '['

/-- A text that has no part of an opening mark in it. -/
structure Text.Inert (t : Text) : Prop where
  ne : t ≠ []
  opening : '[' ∉ t
  number : '#' ∉ t

/-- A text without any part of a mark is harmless. -/
lemma Text.Inert.harmless {t : Text} (h : t.Inert) : t.Harmless where
  ne := h.ne
  mark found := h.opening (found.subset List.mem_cons_self)
  first found := h.number (List.mem_of_mem_head? found)
  last found := h.opening (List.mem_of_getLast? found)

/-- A text as it can be given for a placeholder: it makes no mark, and has no blanks around it. -/
structure Text.Clean (t : Text) : Prop extends Text.Inert t where
  trimmed : Text.trim t = t

namespace Piece

variable {ps : List Piece} {given given' : Text → Option Text}

/-- A mark does not come about by filling in. -/
lemma head_fill (harmless : ∀ inside t, given inside = some t → t.Harmless)
    (h : .char '#' ∈ (ps.flatMap (fill given)).head?) : .char '#' ∈ ps.head? := by
  cases ps with
  | nil => exact h
  | cons p ps =>
    cases p with
    | char c => simpa [fill] using h
    | hole inside =>
      rw [List.flatMap_cons, fill] at h
      cases e : given inside with
      | none => simp [e] at h
      | some t =>
        have ht := harmless inside t e
        obtain ⟨c, t, rfl⟩ := List.exists_cons_of_ne_nil ht.ne
        have same : c = '#' := by simpa [e] using h
        exact absurd (congrArg some same) ht.first

/-- A text without a mark can be put in front, unless its end makes a mark with what comes next. -/
lemma Legible.chars_append {t : Text} (h : Legible ps) (mark : ¬ ['[', '#'] <:+: t)
    (last : t.getLast? = some '[' → .char '#' ∉ ps.head?) : Legible (t.map .char ++ ps) := by
  induction t with
  | nil => exact h
  | cons c t ih =>
    cases t with
    | nil => exact h.cons_char fun e => last (congrArg some e)
    | cons d t =>
      have rest := ih (fun found => mark (List.infix_cons found)) (by simpa using last)
      refine rest.cons_char fun e first => ?_
      obtain rfl : d = '#' := by simpa using first
      exact mark (e ▸ (List.prefix_append ['[', '#'] t).isInfix)

/-- Where there is no placeholder, nothing is filled in. -/
lemma fill_chars (given : Text → Option Text) (t : Text) :
    (t.map Piece.char).flatMap (fill given) = t.map .char := by
  induction t with
  | nil => rfl
  | cons c t ih => exact congrArg (.char c :: ·) ih

/-- Pieces stay legible when harmless texts are filled in. -/
lemma Legible.fill (h : Legible ps) (harmless : ∀ inside t, given inside = some t → t.Harmless) :
    Legible (ps.flatMap (Piece.fill given)) := by
  induction ps with
  | nil => exact h
  | cons p ps ih =>
    have rest := ih h.tail
    rw [List.flatMap_cons]
    cases p with
    | char c =>
      -- a mark behind the character was there before
      refine rest.cons_char fun e first => ?_
      exact (List.isChain_cons.1 h.apart).1 _ (head_fill harmless first) (e ▸ rfl) rfl
    | hole inside =>
      cases e : given inside with
      | none =>
        simp only [Piece.fill, e, Option.elim_none]
        exact rest.cons_hole (h.closed inside List.mem_cons_self)
      | some t =>
        have ht := harmless inside t e
        simp only [Piece.fill, e, Option.elim_some]
        exact rest.chars_append ht.mark (absurd · ht.last)

/-- The pieces of a text that was filled in are those of the text before, each filled in. -/
lemma ofText_fill (harmless : ∀ inside t, given inside = some t → t.Harmless) (t : Text) :
    ofText (((ofText t).flatMap (fill given)).flatMap source) =
      (ofText t).flatMap (fill given) := by
  obtain ⟨ps, tail, legible, dangling, e⟩ := ofText_cases t
  rw [e, List.flatMap_append, fill_chars, List.flatMap_append, source_chars,
    ofText_source_append (legible.fill harmless) dangling]

/-- Where nothing is given for the placeholders that are there, nothing is filled in. -/
lemma fill_eq_self (h : ∀ inside, .hole inside ∈ ps → given inside = none) :
    ps.flatMap (fill given) = ps := by
  induction ps with
  | nil => rfl
  | cons p ps ih =>
    rw [List.flatMap_cons, ih fun inside mem => h inside (List.mem_cons_of_mem _ mem)]
    cases p with
    | char c => rfl
    | hole inside => simp [fill, h inside List.mem_cons_self]

/-- It only matters what is given for the placeholders that are there. -/
lemma fill_congr (h : ∀ inside, .hole inside ∈ ps → given inside = given' inside) :
    ps.flatMap (fill given) = ps.flatMap (fill given') := by
  refine List.flatMap_congr fun p mem => ?_
  cases p with
  | char c => rfl
  | hole inside => rw [fill, fill, h inside mem]

/-- The placeholders that are left are those for which nothing is given. -/
lemma hole_mem_fill {inside : Text} :
    .hole inside ∈ ps.flatMap (fill given) ↔ .hole inside ∈ ps ∧ given inside = none := by
  rw [List.mem_flatMap]
  constructor
  · rintro ⟨p, mem, h⟩
    cases p with
    | char c => simp [fill] at h
    | hole other =>
      cases e : given other with
      | none =>
        obtain rfl : inside = other := by simpa [fill, e] using h
        exact ⟨mem, e⟩
      | some t => simp [fill, e] at h
  · rintro ⟨mem, e⟩
    exact ⟨_, mem, by simp [fill, e]⟩

/-- Filling in some placeholders and then more is filling in all of them. -/
lemma flatMap_fill_fill (ps : List Piece)
    (h : ∀ inside t, given inside = some t → given' inside = some t) :
    (ps.flatMap (fill given)).flatMap (fill given') = ps.flatMap (fill given') := by
  induction ps with
  | nil => rfl
  | cons p ps ih =>
    rw [List.flatMap_cons, List.flatMap_append, ih, List.flatMap_cons]
    congr 1
    cases p with
    | char c => rfl
    | hole inside =>
      cases e : given inside with
      | none => simp [fill, e]
      | some t =>
        simp only [fill, e, h inside t e, Option.elim_some]
        exact fill_chars given' t

/-- The characters of a text without an opening bracket are legible. -/
lemma legible_chars {t : Text} (opening : '[' ∉ t) : Legible (t.map .char) := by
  have mark : ¬ ['[', '#'] <:+: t := fun found => opening (found.subset List.mem_cons_self)
  simpa using Legible.nil.chars_append mark fun _ => nofun

/-- Replacing by an inert text does not bring a number sign to the front. -/
lemma head_replace {old new t : Text} (ne : old ≠ []) (inert : new.Inert)
    (h : '#' ∈ (Text.replace old new t).head?) : '#' ∈ t.head? := by
  by_cases found : old <+: t
  · obtain ⟨rest, rfl⟩ := found
    obtain ⟨c, new, rfl⟩ := List.exists_cons_of_ne_nil inert.ne
    have same : c = '#' := by simpa [Text.replace_append ne] using h
    exact absurd (same ▸ List.mem_cons_self) inert.number
  · cases t with
    | nil => exact h
    | cons c t => simpa [Text.replace_cons found] using h

/-- No mark comes about where an inert text replaces another one. -/
lemma Legible.replace {old new t : Text} (h : Legible (t.map .char)) (ne : old ≠ [])
    (inert : new.Inert) : Legible ((Text.replace old new t).map .char) := by
  induction Text.passes_end ne t with
  | start => exact h
  | met _ ih =>
    rw [List.map_append] at h
    have tail := ih ⟨(List.isChain_append.1 h.apart).2.1, fun inside mem =>
      h.closed inside (by simp [mem])⟩
    rw [Text.replace_append ne, List.map_append]
    exact tail.chars_append inert.harmless.mark (absurd · inert.harmless.last)
  | @other c t absent _ ih =>
    rw [List.append_nil] at absent
    rw [Text.replace_cons absent]
    refine (ih h.tail).cons_char fun e first => ?_
    have first : '#' ∈ (Text.replace old new t).head? := by
      simpa [List.head?_map] using first
    have first : .char '#' ∈ (t.map Piece.char).head? := by
      simpa [List.head?_map] using head_replace ne inert first
    exact (List.isChain_cons.1 h.apart).1 _ first (e ▸ rfl) rfl

/-- A piece with a text in the place of its placeholder. -/
def written (text : Text → Text) : Piece → Text
  | .char c => [c]
  | .hole inside => text inside

/-- It only matters which texts stand for the placeholders that are there. -/
lemma written_congr {text text' : Text → Text}
    (h : ∀ inside, .hole inside ∈ ps → text inside = text' inside) :
    ps.flatMap (written text) = ps.flatMap (written text') := by
  refine List.flatMap_congr fun p mem => ?_
  cases p with
  | char c => rfl
  | hole inside => exact h inside mem

/-- Where something is given for every placeholder, only characters are left. -/
lemma fill_eq_chars {text : Text → Text}
    (h : ∀ inside, .hole inside ∈ ps → given inside = some (text inside)) :
    ps.flatMap (fill given) = (ps.flatMap (written text)).map .char := by
  induction ps with
  | nil => rfl
  | cons p ps ih =>
    rw [List.flatMap_cons, List.flatMap_cons, List.map_append,
      ih fun inside mem => h inside (List.mem_cons_of_mem _ mem)]
    congr 1
    cases p with
    | char c => rfl
    | hole inside => simp [fill, h inside List.mem_cons_self, written]

/-- No occurrence of the text begins with a character of the pieces, when it is filled in for all
placeholders. -/
def Clear (text : Text) : List Piece → Prop
  | [] => True
  | .char c :: ps => ¬ text <+: c :: ps.flatMap (written fun _ => text) ∧ Clear text ps
  | .hole _ :: ps => Clear text ps

instance Clear.decidable (text : Text) : (ps : List Piece) → Decidable (Clear text ps)
  | [] => .isTrue trivial
  | .char c :: ps =>
    have := Clear.decidable text ps
    inferInstanceAs (Decidable (¬ text <+: c :: ps.flatMap (written fun _ => text) ∧ Clear text ps))
  | .hole _ :: ps => Clear.decidable text ps

/-- Replacing the old text by the new one is filling in the new one, if no other occurrence gets in
the way. -/
lemma replace_written {old new : Text} (ne : old ≠ []) (clear : Clear old ps) :
    Text.replace old new (ps.flatMap (written fun _ => old)) =
      ps.flatMap (written fun _ => new) := by
  induction ps with
  | nil => rfl
  | cons p ps ih =>
    rw [List.flatMap_cons, List.flatMap_cons]
    cases p with
    | char c =>
      obtain ⟨first, clear⟩ := clear
      simp only [written, List.singleton_append]
      rw [Text.replace_cons first, ih clear]
    | hole inside =>
      simp only [written]
      rw [Text.replace_append ne, ih clear]

end Piece

/-! ### Nodes -/

/-- What a placeholder is filled in with at a site. -/
def Table.meaning (table : Table) (site : Scope) (inside : Text) : Option Text :=
  (table.resolve (Text.trim inside) site).map fun (_, v) => Text.trim v.text

/-- The address of the variable that a piece is filled in with. -/
def Piece.address? (table : Table) (site : Scope) : Piece → Option Address
  | .char _ => none
  | .hole inside => (table.resolve (Text.trim inside) site).map Prod.fst

namespace Filling

variable {table : Table} {site : Scope} {f : Filling}

/-- What is added is the text of the pieces, filled in. -/
lemma foldl_text (ps : List Piece) : (ps.foldl (add table site) f).text =
    f.text ++ (ps.flatMap (Piece.fill (table.meaning site))).flatMap Piece.source := by
  induction ps generalizing f with
  | nil => simp
  | cons p ps ih =>
    rw [List.foldl_cons, ih, List.flatMap_cons, List.flatMap_append]
    cases p with
    | char c => simp [add, Piece.fill, Piece.source]
    | hole inside =>
      cases e : table.resolve (Text.trim inside) site with
      | none => simp [add, Piece.fill, Table.meaning, e]
      | some found => simp [add, Piece.fill, Table.meaning, e, Piece.source_chars]

/-- The variable that is remembered is that of the last piece with a meaning. -/
lemma foldl_last (ps : List Piece) : (ps.foldl (add table site) f).last.map Prod.fst =
    (ps.filterMap (Piece.address? table site)).getLast?.or (f.last.map Prod.fst) := by
  induction ps generalizing f with
  | nil => simp
  | cons p ps ih =>
    rw [List.foldl_cons, ih]
    cases p with
    | char c => simp [add, Piece.address?]
    | hole inside =>
      cases e : table.resolve (Text.trim inside) site with
      | none => simp [add, Piece.address?, e]
      | some found => simp [add, Piece.address?, e, List.getLast?_cons]

/-- Pieces without a meaning are copied. -/
lemma foldl_unresolved {ps : List Piece} (h : ∀ inside, .hole inside ∈ ps →
    table.resolve (Text.trim inside) site = none) :
    ps.foldl (add table site) f = { f with text := f.text ++ ps.flatMap Piece.source } := by
  induction ps generalizing f with
  | nil => simp
  | cons p ps ih =>
    rw [List.foldl_cons, ih fun inside mem => h inside (List.mem_cons_of_mem p mem)]
    cases p with
    | char c => simp [add, Piece.source]
    | hole inside => simp [add, h inside List.mem_cons_self]

/-- The last piece with a meaning is the one that is remembered, with the place of its text. -/
lemma foldl_filled {front back : List Piece} {inside : Text} {address : Address} {v : Variable}
    (found : table.resolve (Text.trim inside) site = some (address, v))
    (unknown : ∀ inside', .hole inside' ∈ back →
      table.resolve (Text.trim inside') site = none) :
    let before := (front.flatMap (Piece.fill (table.meaning site))).flatMap Piece.source
    (front ++ .hole inside :: back).foldl (add table site) {} =
      ⟨before ++ Text.trim v.text ++ back.flatMap Piece.source,
        some (address, Node.spanAt (Text.byteLength before) (Text.trim v.text))⟩ := by
  intro before
  have start : (front.foldl (add table site) {}).text = before := foldl_text front
  rw [List.foldl_append, List.foldl_cons, foldl_unresolved unknown, add, found]
  simp [start, Node.spanAt]

/-- What comes out is the text of the pieces, filled in. -/
lemma ofText_text (t : Text) : (ofText table site t).text =
    ((Piece.ofText t).flatMap (Piece.fill (table.meaning site))).flatMap Piece.source :=
  foldl_text (Piece.ofText t)

/-- The variable that is remembered is that of the last piece with a meaning, if there is one. -/
lemma ofText_last (t : Text) : (ofText table site t).last.map Prod.fst =
    ((Piece.ofText t).filterMap (Piece.address? table site)).getLast? :=
  (foldl_last (Piece.ofText t)).trans Option.or_none

/-- A text in which nothing was filled in has not changed. -/
lemma text_of_last {t : Text} (h : (ofText table site t).last = none) :
    (ofText table site t).text = t := by
  have none : (Piece.ofText t).filterMap (Piece.address? table site) = [] := by
    rw [← List.getLast?_eq_none_iff, ← ofText_last, h]
    rfl
  have unfilled : (Piece.ofText t).flatMap (Piece.fill (table.meaning site)) = Piece.ofText t := by
    refine Piece.fill_eq_self fun inside mem => ?_
    have unresolved := List.filterMap_eq_nil_iff.1 none _ mem
    simpa [Piece.address?, Table.meaning] using unresolved
  rw [ofText_text, unfilled, Piece.source_ofText]

end Filling

namespace Node

variable {table : Table} {script : ScriptId} {node : Node}

/-- Filling in does not move a node. -/
@[simp] lemma toShape_substitute (table : Table) (script : ScriptId) (node : Node) :
    (node.substitute table script).toShape = node.toShape := by
  unfold substitute
  dsimp only
  split <;> rfl

/-- Following a change does not move a node. -/
@[simp] lemma toShape_follow (node : Node) (old new : Text) :
    (node.follow old new).toShape = node.toShape := by
  unfold follow
  split <;> split <;> rfl

/-- A node that is filled in stands where it stood. -/
@[simp] lemma parent_substitute (table : Table) (script : ScriptId) (node : Node) :
    (node.substitute table script).parent = node.parent :=
  congrArg Shape.parent (node.toShape_substitute table script)

/-- A node that follows a change stands where it stood. -/
@[simp] lemma parent_follow (node : Node) (old new : Text) :
    (node.follow old new).parent = node.parent :=
  congrArg Shape.parent (node.toShape_follow old new)

/-- A node that follows a change shows the variable that it showed. -/
@[simp] lemma bound_follow (node : Node) (old new : Text) :
    (node.follow old new).bound = node.bound := by
  unfold follow
  split <;> split <;> rfl

/-- The last variable filled in is the one that the node shows. -/
lemma bound_substitute (table : Table) (script : ScriptId) (node : Node) :
    (node.substitute table script).bound = ((Piece.ofText node.value).filterMap
      (Piece.address? table (.enclosing script node.parent))).getLast?.or node.bound := by
  rw [← Filling.ofText_last]
  unfold substitute
  dsimp only
  cases (Filling.ofText table (.enclosing script node.parent) node.value).last <;> rfl

/-- A node in which no placeholder means anything stays as it is. -/
lemma substitute_eq_self (h : ∀ inside, .hole inside ∈ Piece.ofText node.value →
    table.resolve (Text.trim inside) (.enclosing script node.parent) = none) :
    node.substitute table script = node := by
  have copied := Filling.foldl_unresolved (f := {}) h
  simp only [substitute, Filling.ofText, copied]

/-- A text that is only characters has nothing to fill in. -/
lemma substitute_chars {t : Text} (h : Piece.Legible (t.map .char)) (value : node.value = t) :
    node.substitute table script = node := by
  refine substitute_eq_self fun inside mem => ?_
  rw [value, ← Piece.source_chars t, Piece.ofText_source h] at mem
  simp at mem

/-- The text of a node that was filled in is that of its pieces, filled in. -/
lemma value_substitute (table : Table) (script : ScriptId) (node : Node) :
    (node.substitute table script).value = ((Piece.ofText node.value).flatMap
      (Piece.fill (table.meaning (.enclosing script node.parent)))).flatMap Piece.source := by
  rw [← Filling.ofText_text]
  unfold substitute
  dsimp only
  cases e : (Filling.ofText table (.enclosing script node.parent) node.value).last with
  | none => exact (Filling.text_of_last e).symm
  | some last => rfl

/-- A node that follows a change has the new text wherever the search meets the old one. -/
lemma value_follow {old : Text} (ne : old ≠ []) (new : Text) :
    (node.follow old new).value = Text.replace old new node.value := by
  unfold follow
  split <;> simp [ne]

end Node

end Sigil
