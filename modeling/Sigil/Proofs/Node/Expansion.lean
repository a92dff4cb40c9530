import Mathlib.Data.List.Basic
import Mathlib.Tactic.Common
import Sigil.Proofs.Node.Filling
import Sigil.Proofs.Text.Bytes

/-!
# The grammar of texts with placeholders

A text with placeholders is a row of stretches, each a literal part with the placeholder behind it,
and then another literal part and an end that may be left open. `Cut` says what such a row has to
look like, without reading the text: no literal part holds an opening mark, and no placeholder holds
a closing one. Every text can be cut like this in exactly one way (`Cut.source_bijective`), so that
it does not matter how the places of the marks are found.

What comes out when the placeholders are filled in can therefore be told from the cut alone: the
literal parts are copied, and so are the placeholders that mean nothing; the others are replaced
(`Filling.ofText_expands`).
-/

namespace Sigil

/-- A literal part of a text and the placeholder behind it. -/
@[ext] structure Stretch where
  before : Text
  inside : Text
  plain : ¬ ['[', '#'] <:+: before
  closed : ']' ∉ inside

/-- A text that is cut at its placeholders. -/
@[ext] structure Cut where
  stretches : List Stretch
  /-- The literal part behind the last placeholder. -/
  rest : Text
  /-- What is left open at the end. -/
  tail : Text
  plain : ¬ ['[', '#'] <:+: rest
  dangling : tail.Dangling

namespace Stretch

variable {table : Table} {site : Scope}

/-- The pieces that the stretch is read as. -/
def pieces (s : Stretch) : List Piece :=
  s.before.map .char ++ [.hole s.inside]

/-- The stretch as it is written. -/
def source (s : Stretch) : Text :=
  s.before ++ (Piece.hole s.inside).source

/-- The stretch with the placeholder filled in; it is copied if it has no meaning. -/
def filled (table : Table) (site : Scope) (s : Stretch) : Text :=
  s.before ++ (table.meaning site s.inside).getD (Piece.hole s.inside).source

/-- The placeholder of the stretch means nothing. -/
def Unresolved (table : Table) (site : Scope) (s : Stretch) : Prop :=
  table.resolve (Text.trim s.inside) site = none

/-- The pieces of a stretch are written as the stretch. -/
lemma source_pieces (s : Stretch) : s.pieces.flatMap Piece.source = s.source := by
  simp [pieces, source, Piece.source_chars]

/-- The pieces of a stretch are filled in as the stretch. -/
lemma fill_pieces (s : Stretch) :
    (s.pieces.flatMap (Piece.fill (table.meaning site))).flatMap Piece.source =
      s.filled table site := by
  rw [pieces, List.flatMap_append, Piece.fill_chars, List.flatMap_append, Piece.source_chars,
    filled, List.flatMap_singleton]
  cases e : table.meaning site s.inside with
  | none => simp [Piece.fill, e]
  | some t => simp [Piece.fill, e, Piece.source_chars]

/-- The placeholder of a stretch is the only one among its pieces. -/
lemma hole_mem_pieces {s : Stretch} {inside : Text} :
    .hole inside ∈ s.pieces ↔ inside = s.inside := by
  simp [pieces]

end Stretch

namespace Cut

variable {table : Table} {site : Scope}

/-- The pieces that the text is read as. -/
def pieces (cut : Cut) : List Piece :=
  cut.stretches.flatMap Stretch.pieces ++ (cut.rest ++ cut.tail).map .char

/-- The text that was cut. -/
def source (cut : Cut) : Text :=
  cut.stretches.flatMap Stretch.source ++ cut.rest ++ cut.tail

/-- The text with the placeholders filled in. -/
def filled (table : Table) (site : Scope) (cut : Cut) : Text :=
  cut.stretches.flatMap (Stretch.filled table site) ++ cut.rest ++ cut.tail

/-- The pieces of stretches in a row are written as the stretches. -/
lemma source_stretches (ss : List Stretch) :
    (ss.flatMap Stretch.pieces).flatMap Piece.source = ss.flatMap Stretch.source := by
  rw [List.flatMap_assoc]
  exact List.flatMap_congr fun s _ => s.source_pieces

/-- The pieces of a text that was cut are written as the text. -/
lemma source_pieces (cut : Cut) : cut.pieces.flatMap Piece.source = cut.source := by
  rw [pieces, source, List.flatMap_append, Piece.source_chars, source_stretches,
    List.append_assoc]

/-- The pieces of stretches in a row are filled in as the stretches. -/
lemma fill_stretches (ss : List Stretch) :
    ((ss.flatMap Stretch.pieces).flatMap (Piece.fill (table.meaning site))).flatMap Piece.source =
      ss.flatMap (Stretch.filled table site) := by
  simp only [List.flatMap_assoc]
  refine List.flatMap_congr fun s _ => ?_
  rw [← List.flatMap_assoc]
  exact s.fill_pieces

/-- The pieces of a text that was cut are filled in as the text. -/
lemma fill_pieces (cut : Cut) :
    (cut.pieces.flatMap (Piece.fill (table.meaning site))).flatMap Piece.source =
      cut.filled table site := by
  rw [pieces, filled, List.flatMap_append, Piece.fill_chars, List.flatMap_append,
    Piece.source_chars, List.append_assoc, fill_stretches]

/-- The placeholders among the pieces of a text are those of its stretches. -/
lemma hole_mem_pieces {cut : Cut} {inside : Text} :
    .hole inside ∈ cut.pieces ↔ ∃ s ∈ cut.stretches, inside = s.inside := by
  simp [pieces, Stretch.hole_mem_pieces]

/-! ### There is one way to cut a text -/

/-- The pieces up to the open end can be read back. -/
lemma legible_pieces (cut : Cut) :
    Piece.Legible (cut.stretches.flatMap Stretch.pieces ++ cut.rest.map .char) := by
  induction cut.stretches with
  | nil => simpa using Piece.Legible.nil.chars_append cut.plain fun _ => nofun
  | cons s stretches ih =>
    rw [List.flatMap_cons, List.append_assoc, Stretch.pieces, List.append_assoc,
      List.singleton_append]
    exact (ih.cons_hole s.closed).chars_append s.plain fun _ => nofun

/-- A text that is put together from a cut is taken apart at the same places. -/
lemma ofText_source (cut : Cut) : Piece.ofText cut.source = cut.pieces := by
  have read := Piece.ofText_source_append cut.legible_pieces cut.dangling
  rw [List.flatMap_append, source_stretches, Piece.source_chars] at read
  rw [source, read, pieces, List.map_append, List.append_assoc]

/-- No mark comes about by putting a character in front. -/
lemma plain_cons {c : Char} {t : Text} {ps : List Piece} (plain : ¬ ['[', '#'] <:+: t)
    (legible : Piece.Legible (.char c :: (t.map .char ++ ps))) : ¬ ['[', '#'] <:+: c :: t := by
  rw [List.infix_cons_iff]
  rintro (⟨t, e⟩ | found)
  · cases e
    exact (List.isChain_cons.1 legible.apart).1 _ rfl rfl rfl
  · exact plain found

/-- Pieces that can be read back are those of a cut. -/
lemma exists_of_legible {ps : List Piece} {tail : Text} (legible : Piece.Legible ps)
    (dangling : tail.Dangling) : ∃ cut : Cut, cut.tail = tail ∧
      cut.stretches.flatMap Stretch.pieces ++ cut.rest.map .char = ps := by
  induction ps with
  | nil => exact ⟨⟨[], [], tail, by simp, dangling⟩, rfl, rfl⟩
  | cons p ps ih =>
    obtain ⟨⟨stretches, rest, _, plain, _⟩, rfl, rfl⟩ := ih legible.tail
    cases p with
    | hole inside =>
      have closed : ']' ∉ inside := legible.closed inside List.mem_cons_self
      exact ⟨⟨⟨[], inside, by simp, closed⟩ :: stretches, rest, _, plain, dangling⟩, rfl, rfl⟩
    | char c =>
      -- the character belongs to the literal part that comes first
      cases stretches with
      | nil =>
        have legible : Piece.Legible (.char c :: (rest.map .char ++ [])) := by
          simpa using legible
        exact ⟨⟨[], c :: rest, _, plain_cons plain legible, dangling⟩, rfl, rfl⟩
      | cons s stretches =>
        have legible : Piece.Legible (.char c :: (s.before.map .char ++ .hole s.inside ::
            (stretches.flatMap Stretch.pieces ++ rest.map .char))) := by
          simpa [Stretch.pieces] using legible
        exact ⟨⟨⟨c :: s.before, s.inside, plain_cons s.plain legible, s.closed⟩ :: stretches, rest,
          _, plain, dangling⟩, rfl, rfl⟩

/-- Every text can be cut. -/
lemma exists_source (t : Text) : ∃ cut : Cut, cut.source = t := by
  obtain ⟨ps, tail, legible, dangling, e⟩ := Piece.ofText_cases t
  obtain ⟨cut, rfl, rfl⟩ := exists_of_legible legible dangling
  refine ⟨cut, ?_⟩
  rw [← source_pieces, pieces, List.map_append, ← List.append_assoc, ← e, Piece.source_ofText]

/-- Where all pieces are characters, there is no stretch. -/
lemma no_stretch {ss : List Stretch} {t t' : Text}
    (h : ss.flatMap Stretch.pieces ++ t.map .char = t'.map .char) : ss = [] := by
  cases ss with
  | nil => rfl
  | cons s ss =>
    have mem : .hole s.inside ∈ t'.map Piece.char := by
      rw [← h, List.flatMap_cons]
      exact List.mem_append_left _ (List.mem_append_left _ (Stretch.hole_mem_pieces.2 rfl))
    simp at mem

/-- Pieces that are characters tell the text. -/
lemma chars_injective : Function.Injective (List.map Piece.char) :=
  List.map_injective_iff.2 fun _ _ => Piece.char.inj

/-- Pieces up to the first placeholder tell the text in front of it and what it holds. -/
lemma chars_hole_inj {t t' inside inside' : Text} {ps ps' : List Piece}
    (h : t.map .char ++ .hole inside :: ps = t'.map .char ++ .hole inside' :: ps') :
    t = t' ∧ inside = inside' ∧ ps = ps' := by
  induction t generalizing t' with
  | nil => cases t' <;> simp_all
  | cons c t ih =>
    cases t' with
    | nil => simp at h
    | cons c' t' =>
      obtain ⟨same, h⟩ := List.cons.inj h
      obtain ⟨rfl, rest⟩ := ih h
      exact ⟨congrArg (· :: t) (Piece.char.inj same), rest⟩

/-- The pieces tell the stretches and the text behind them. -/
lemma stretches_inj {ss ss' : List Stretch} {t t' : Text}
    (h : ss.flatMap Stretch.pieces ++ t.map .char = ss'.flatMap Stretch.pieces ++ t'.map .char) :
    ss = ss' ∧ t = t' := by
  induction ss generalizing ss' with
  | nil =>
    obtain rfl : ss' = [] := no_stretch h.symm
    exact ⟨rfl, chars_injective h⟩
  | cons s ss ih =>
    cases ss' with
    | nil => exact absurd (no_stretch h) (List.cons_ne_nil s ss)
    | cons s' ss' =>
      simp only [List.flatMap_cons, Stretch.pieces, List.append_assoc, List.cons_append,
        List.nil_append] at h
      obtain ⟨before, inside, h⟩ := chars_hole_inj h
      obtain ⟨rfl, rfl⟩ := ih h
      exact ⟨congrArg (· :: ss) (Stretch.ext before inside), rfl⟩

/-- What is left open begins with the first mark behind the last placeholder. -/
lemma eq_nil_of_dangling {rest t tail : Text} (plain : ¬ ['[', '#'] <:+: rest ++ t)
    (dangling : (t ++ tail).Dangling) (dangling' : tail.Dangling) : t = [] := by
  generalize e : t ++ tail = whole at dangling
  cases dangling with
  | none => exact (List.append_eq_nil_iff.1 e).1
  | mark _ =>
    match t with
    | [] => rfl
    | [_] =>
      obtain ⟨rfl, rfl⟩ := List.cons.inj e
      cases dangling'
    | _ :: _ :: t =>
      cases e
      exact absurd ⟨rest, t, List.append_assoc rest ['[', '#'] t⟩ plain

/-- Every text can be cut at its placeholders in exactly one way. -/
lemma source_bijective : Function.Bijective source := by
  refine ⟨fun cut cut' h => ?_, exists_source⟩
  have same : cut.pieces = cut'.pieces := by
    rw [← ofText_source, h, ofText_source]
  obtain ⟨stretches, ends⟩ := stretches_inj same
  have rests : cut.rest = cut'.rest := by
    rcases List.append_eq_append_iff.1 ends with ⟨t, more, tail⟩ | ⟨t, more, tail⟩
    · have none := eq_nil_of_dangling (more ▸ cut'.plain) (tail ▸ cut.dangling) cut'.dangling
      rw [more, none, List.append_nil]
    · have none := eq_nil_of_dangling (more ▸ cut.plain) (tail ▸ cut'.dangling) cut.dangling
      rw [more, none, List.append_nil]
  rw [rests] at ends
  exact Cut.ext stretches rests (List.append_cancel_left ends)

/-! ### Filling in what was cut -/

/-- No placeholder means anything, or there is a last one that does. -/
lemma unresolved_or_last (ss : List Stretch) :
    (∀ s ∈ ss, s.Unresolved table site) ∨
    ∃ front s back address v, ss = front ++ s :: back ∧
      table.resolve (Text.trim s.inside) site = some (address, v) ∧
      ∀ s' ∈ back, s'.Unresolved table site := by
  induction ss with
  | nil => exact .inl nofun
  | cons s ss ih =>
    rcases ih with unknown | ⟨front, s', back, address, v, rfl, found, unknown⟩
    · cases e : table.resolve (Text.trim s.inside) site with
      | none => exact .inl (List.forall_mem_cons.2 ⟨e, unknown⟩)
      | some found => exact .inr ⟨[], s, ss, found.1, found.2, rfl, e, unknown⟩
    · exact .inr ⟨s :: front, s', back, address, v, rfl, found, unknown⟩

variable {cut : Cut}

/-- If no placeholder means anything, nothing is remembered. -/
lemma ofText_unresolved (unknown : ∀ s ∈ cut.stretches, s.Unresolved table site) :
    (Filling.ofText table site cut.source).last = none := by
  have copied : cut.pieces.foldl (Filling.add table site) {} = _ :=
    Filling.foldl_unresolved fun inside mem => by
      obtain ⟨s, listed, rfl⟩ := hole_mem_pieces.1 mem
      exact unknown s listed
  rw [Filling.ofText, ofText_source, copied]

/-- The last placeholder that means something is remembered, and its place is where the filled
stretches in front of it and its own literal part end. -/
lemma ofText_last {front back : List Stretch} {s : Stretch} {address : Address} {v : Variable}
    (parts : cut.stretches = front ++ s :: back)
    (found : table.resolve (Text.trim s.inside) site = some (address, v))
    (unknown : ∀ s' ∈ back, s'.Unresolved table site) :
    let before := front.flatMap (Stretch.filled table site) ++ s.before
    let after := back.flatMap Stretch.source ++ cut.rest ++ cut.tail
    Filling.ofText table site cut.source =
      ⟨before ++ Text.trim v.text ++ after,
        some (address, Node.spanAt (Text.byteLength before) (Text.trim v.text))⟩ := by
  intro before after
  have pieces : cut.pieces = (front.flatMap Stretch.pieces ++ s.before.map .char) ++
      .hole s.inside :: (back.flatMap Stretch.pieces ++ (cut.rest ++ cut.tail).map .char) := by
    simp [Cut.pieces, parts, Stretch.pieces]
  have ahead : ((front.flatMap Stretch.pieces ++ s.before.map Piece.char).flatMap
      (Piece.fill (table.meaning site))).flatMap Piece.source = before := by
    rw [List.flatMap_append, Piece.fill_chars, List.flatMap_append, fill_stretches,
      Piece.source_chars]
  have behind : (back.flatMap Stretch.pieces ++ (cut.rest ++ cut.tail).map Piece.char).flatMap
      Piece.source = after := by
    rw [List.flatMap_append, source_stretches, Piece.source_chars, ← List.append_assoc]
  have copied : ∀ inside, .hole inside ∈ back.flatMap Stretch.pieces ++
      (cut.rest ++ cut.tail).map .char → table.resolve (Text.trim inside) site = none := by
    intro inside mem
    obtain ⟨s', listed, rfl⟩ : ∃ s' ∈ back, inside = s'.inside := by
      simpa [Stretch.hole_mem_pieces] using mem
    exact unknown s' listed
  rw [Filling.ofText, ofText_source, pieces, Filling.foldl_filled found copied, ahead, behind]

end Cut

/-- Every text is cut at its placeholders in exactly one way: each of them reaches from the first
opening mark behind the one before to the next closing mark. Nothing is filled in if and only if no
placeholder means anything where the text stands. What comes out is the text in which each
placeholder that means a variable is replaced by the text of the variable, without blanks around it,
and everything else is copied. What is remembered is the variable of the last of these placeholders,
and the place where exactly its text stands, behind all that comes before it. -/
theorem Filling.ofText_expands (table : Table) (site : Scope) (t : Text) :
    ∃ cut : Cut, (cut.source = t ∧ ∀ cut' : Cut, cut'.source = t → cut' = cut) ∧
      ((ofText table site t).last = none ↔ ∀ s ∈ cut.stretches, s.Unresolved table site) ∧
      (ofText table site t).text = cut.filled table site ∧
      ∀ address span, (ofText table site t).last = some (address, span) →
        ∃ front s back v, cut.stretches = front ++ s :: back ∧
          table.resolve (Text.trim s.inside) site = some (address, v) ∧
          (∀ s' ∈ back, s'.Unresolved table site) ∧
          span.start =
            Text.byteLength (front.flatMap (Stretch.filled table site) ++ s.before) ∧
          Text.slice span (ofText table site t).text = some (Text.trim v.text) := by
  obtain ⟨cut, rfl⟩ := Cut.exists_source t
  have only : ∀ cut' : Cut, cut'.source = cut.source → cut' = cut :=
    fun _ same => Cut.source_bijective.1 same
  have text : (ofText table site cut.source).text = cut.filled table site := by
    rw [ofText_text, Cut.ofText_source, Cut.fill_pieces]
  rcases Cut.unresolved_or_last cut.stretches with
    unknown | ⟨front, s, back, address, v, parts, found, unknown⟩
  · have none := Cut.ofText_unresolved unknown
    refine ⟨cut, ⟨rfl, only⟩, iff_of_true none unknown, text, fun address span last => ?_⟩
    cases none.symm.trans last
  · have filled := Cut.ofText_last parts found unknown
    have known : ¬ ∀ s' ∈ cut.stretches, s'.Unresolved table site := by
      intro all
      cases found.symm.trans (all s (by simp [parts]))
    refine ⟨cut, ⟨rfl, only⟩, iff_of_false (by simp [filled]) known, text, ?_⟩
    intro address' span last
    rw [filled] at last ⊢
    cases last
    exact ⟨front, s, back, v, parts, found, unknown, rfl,
      Text.slice_eq_some_iff.2 ⟨_, _, rfl, rfl⟩⟩

-- an empty text is filled in last, between a placeholder that is copied and an end left open
example :
    let table : Table := ⟨[⟨.number 0, .variable ⟨['x'], " v é ".toList, .everywhere⟩⟩,
      ⟨.number 1, .variable ⟨['y'], "  ".toList, .everywhere⟩⟩]⟩
    Filling.ofText table .everywhere "é[#x][#[#x][# y ]]z[#x".toList =
      ⟨"év é[#[#x]]z[#x".toList, some (.number 1, ⟨12, 12⟩)⟩ := by
  decide

end Sigil
