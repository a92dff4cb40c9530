import Mathlib.Tactic.Common
import Sigil.ArrayText.Reader
import Sigil.Proofs.Text.Trim

/-!
# Array texts read back

An array text is written by `Value.serializeArray` and read by `ArrayText.parse`. An item reads back
(`ReadsBack`) if the reader, at a place where an item may begin, takes up exactly this item from its
text, no matter whether a comma or a bracket follows. A list whose items read back is read up to its
closing bracket (`feed_serializeItems`), and as a whole text it is read back
(`parse_serializeArray`). Texts read back (`ReadsBack.text`), whatever characters they consist of:
each escape that the writer makes is undone by the reader (`feed_encodeChar`).
-/

namespace Sigil.ArrayText

namespace Reader

/-- Reads a text, character by character. -/
def feed (r : Reader) (t : Text) : Except Problem Reader :=
  t.foldlM step r

variable {r r' : Reader} {t : Text} {c : Char}

/-- Reading a text goes on after its first character. -/
lemma feed_cons (h : r.step c = .ok r') : r.feed (c :: t) = r'.feed t := by
  rw [feed, List.foldlM_cons, h]
  rfl

/-- A text is read by reading its first part and then the rest. -/
lemma feed_append (h : r.feed t = .ok r') (u : Text) : r.feed (t ++ u) = r'.feed u := by
  rw [feed, List.foldlM_append]
  exact congrArg (· >>= fun s => List.foldlM step s u) h

end Reader

/-! ### Strings -/

section
variable {chars : Text} {lists : List (List Value)} {c : Char}

/-- The reader inside a string. -/
abbrev quoting (chars : Text) (escape : Escape) (lists : List (List Value)) : Reader :=
  { place := .string { chars, escape }, lists }

/-- A short escape stands for its character. -/
lemma feed_short {meant : Char} (h : Quotation.shortEscape? c = some meant) (hu : c ≠ 'u') :
    (quoting chars .none lists).feed ['\\', c] = .ok (quoting (chars ++ [meant]) .none lists) := by
  have slash : (quoting chars .none lists).step '\\' = .ok (quoting chars .slash lists) := rfl
  have advance : Quotation.advance { chars, escape := .slash } c =
      .ok (some { chars := chars ++ [meant] }) := by
    simp only [Quotation.advance, if_neg hu, h, Quotation.push]
  have short : (quoting chars .slash lists).step c =
      .ok (quoting (chars ++ [meant]) .none lists) := by
    simp only [Reader.step, advance]
    rfl
  rw [Reader.feed_cons slash, Reader.feed_cons short]
  rfl

/-- The two digits that the writer puts into a numbered escape. -/
lemma hexDigit_digitChar : ∀ n < 16, Quotation.hexDigit? (Nat.digitChar n) = some n ∧
    (Nat.digitChar n).utf8Size = 1 := by
  decide

/-- A numbered escape stands for the character of its number. -/
lemma feed_numbered {a b : Nat} (ha : a < 2) (hb : b < 16) :
    (quoting chars .none lists).feed
        ['\\', 'u', '0', '0', Nat.digitChar a, Nat.digitChar b] =
      .ok (quoting (chars ++ [Char.ofNat (16 * a + b)]) .none lists) := by
  have begins : (quoting chars .none lists).feed ['\\', 'u', '0', '0'] =
      .ok (quoting chars (.digits none ['0', '0']) lists) := rfl
  obtain ⟨readA, sizeA⟩ := hexDigit_digitChar a (by omega)
  obtain ⟨readB, sizeB⟩ := hexDigit_digitChar b hb
  obtain ⟨readZero, sizeZero⟩ : Quotation.hexDigit? '0' = some 0 ∧ '0'.utf8Size = 1 := ⟨rfl, rfl⟩
  -- three digits are not enough, the fourth one ends the escape
  have third : Quotation.pushDigit { chars, escape := .digits none ['0', '0'] } none ['0', '0']
      (Nat.digitChar a) = .ok { chars, escape := .digits none ['0', '0', Nat.digitChar a] } := by
    have short : Text.byteLength ['0', '0', Nat.digitChar a] < 4 := by
      simp [Text.byteLength, sizeZero, sizeA]
    exact if_pos short
  have value : Quotation.hexValue? ['0', '0', Nat.digitChar a, Nat.digitChar b] =
      some (16 * a + b) := by
    simp [Quotation.hexValue?, readZero, readA, readB]
  have fourth : Quotation.pushDigit { chars, escape := .digits none ['0', '0', Nat.digitChar a] }
      none ['0', '0', Nat.digitChar a] (Nat.digitChar b) =
        .ok { chars := chars ++ [Char.ofNat (16 * a + b)] } := by
    have long : ¬ Text.byteLength ['0', '0', Nat.digitChar a, Nat.digitChar b] < 4 := by
      simp [Text.byteLength, sizeZero, sizeA, sizeB]
    have notHigh : ¬ (0xD800 ≤ 16 * a + b ∧ 16 * a + b ≤ 0xDBFF) := by omega
    have notLow : ¬ (0xDC00 ≤ 16 * a + b ∧ 16 * a + b ≤ 0xDFFF) := by omega
    refine (if_neg long).trans ?_
    simp only [Quotation.closeDigits, List.cons_append, List.nil_append, value, if_neg notHigh,
      if_neg notLow, Quotation.push]
  have stepA : (quoting chars (.digits none ['0', '0']) lists).step (Nat.digitChar a) =
      .ok (quoting chars (.digits none ['0', '0', Nat.digitChar a]) lists) := by
    simp only [Reader.step, Quotation.advance, third]
    rfl
  have stepB : (quoting chars (.digits none ['0', '0', Nat.digitChar a]) lists).step
      (Nat.digitChar b) = .ok (quoting (chars ++ [Char.ofNat (16 * a + b)]) .none lists) := by
    simp only [Reader.step, Quotation.advance, fourth]
    rfl
  exact (Reader.feed_append begins _).trans
    ((Reader.feed_cons stepA).trans ((Reader.feed_cons stepB).trans rfl))

/-- Whatever stands for a character in a string is read as this character. -/
lemma feed_encodeChar (chars : Text) (lists : List (List Value)) (c : Char) :
    (quoting chars .none lists).feed (Text.encodeChar c) =
      .ok (quoting (chars ++ [c]) .none lists) := by
  unfold Text.encodeChar
  split_ifs with quote slash back form line carriage tab control
  · rw [quote]
    exact feed_short rfl (by decide)
  · rw [slash]
    exact feed_short rfl (by decide)
  · rw [back]
    exact feed_short rfl (by decide)
  · rw [form]
    exact feed_short rfl (by decide)
  · rw [line]
    exact feed_short rfl (by decide)
  · rw [carriage]
    exact feed_short rfl (by decide)
  · rw [tab]
    exact feed_short rfl (by decide)
  · have number : 16 * (c.toNat / 16) + c.toNat % 16 = c.toNat := Nat.div_add_mod _ _
    have read := @feed_numbered chars lists _ _ (by omega : c.toNat / 16 < 2)
      (by omega : c.toNat % 16 < 16)
    rwa [number, Char.ofNat_toNat] at read
  · have advance : Quotation.advance { chars } c = .ok (some { chars := chars ++ [c] }) := by
      simp only [Quotation.advance, if_neg quote, if_neg slash, if_neg control, Quotation.push]
    have step : (quoting chars .none lists).step c = .ok (quoting (chars ++ [c]) .none lists) := by
      simp only [Reader.step, advance]
      rfl
    exact (Reader.feed_cons step).trans rfl

/-- While a quotation is open, the escaped form of a text adds the text itself. -/
lemma feed_encoded (t chars : Text) (lists : List (List Value)) :
    (quoting chars .none lists).feed (t.flatMap Text.encodeChar) =
      .ok (quoting (chars ++ t) .none lists) := by
  induction t generalizing chars with
  | nil =>
    rw [List.append_nil]
    rfl
  | cons c t ih =>
    rw [List.flatMap_cons, Reader.feed_append (feed_encodeChar chars lists c), ih]
    simp

end

/-! ### Lists -/

/-- Where an item may begin. -/
inductive Place.Ready : Place → Prop where
  | opened : Ready .opened
  | comma : Ready .comma

/-- In a list inside the lists `outer`, the reader takes up a value from its text and the comma or
bracket behind it. -/
def ReadsBack (outer : List (List Value)) (v : Value) : Prop :=
  ∀ ⦃place : Place⦄, place.Ready → ∀ (items : List Value) ⦃c : Char⦄, c = ',' ∨ c = ']' →
    Reader.feed ⟨place, items :: outer⟩ (v.serialize ++ [c]) =
      Reader.separate ⟨.item, (v :: items) :: outer⟩ c

section
variable {outer : List (List Value)} {items : List Value}

/-- A value that has an end of its own, whatever follows, reads back. -/
lemma ReadsBack.of_feed {v : Value} (h : ∀ ⦃place : Place⦄, place.Ready → ∀ items : List Value,
      Reader.feed ⟨place, items :: outer⟩ v.serialize = .ok ⟨.item, (v :: items) :: outer⟩) :
    ReadsBack outer v := by
  intro place ready items c _
  rw [Reader.feed_append (h ready items)]
  simp [Reader.feed, Reader.step]

/-- Every text reads back. -/
lemma ReadsBack.text (t : Text) : ReadsBack outer (.text t) := by
  refine .of_feed fun place ready items => ?_
  have opens : Reader.step ⟨place, items :: outer⟩ '"' =
      .ok (quoting [] .none (items :: outer)) := by
    cases ready <;> rfl
  have closes : (quoting t .none (items :: outer)).step '"' =
      .ok ⟨.item, (.text t :: items) :: outer⟩ := rfl
  rw [Value.serialize, Text.encode, List.cons_append, Reader.feed_cons opens,
    Reader.feed_append (feed_encoded t [] _), List.nil_append, Reader.feed_cons closes]
  rfl

/-- The items from one on, up to the end of the list. -/
lemma feed_serializeOthers (h : ∀ v ∈ items, ReadsBack outer v) (v : Value)
    (hv : ReadsBack outer v) {place : Place} (ready : place.Ready) (before : List Value) :
    Reader.feed ⟨place, before :: outer⟩ (v.serialize ++ Value.serializeOthers items) =
      Reader.close ⟨.item, ((v :: items).reverse ++ before) :: outer⟩ := by
  induction items generalizing v place before with
  | nil =>
    rw [Value.serializeOthers, hv ready _ (.inr rfl)]
    rfl
  | cons w items ih =>
    have comma : Reader.feed ⟨place, before :: outer⟩ (v.serialize ++ [',']) =
        .ok ⟨.comma, (v :: before) :: outer⟩ := hv ready _ (.inl rfl)
    have split : v.serialize ++ Value.serializeOthers (w :: items) =
        v.serialize ++ [','] ++ (w.serialize ++ Value.serializeOthers items) := by
      simp [Value.serializeOthers]
    have rest := ih (fun u mem => h u (List.mem_cons_of_mem _ mem)) w
      (h w List.mem_cons_self) .comma (v :: before)
    rw [split, Reader.feed_append comma, rest]
    simp

/-- A list whose items read back is read up to its end. -/
lemma feed_serializeItems (h : ∀ v ∈ items, ReadsBack outer v) :
    Reader.feed ⟨.opened, [] :: outer⟩ (Value.serializeItems items) =
      Reader.close ⟨.item, items.reverse :: outer⟩ := by
  cases items with
  | nil =>
    rw [Value.serializeItems]
    cases outer <;> rfl
  | cons v items =>
    rw [Value.serializeItems, feed_serializeOthers (fun u mem => h u (List.mem_cons_of_mem _ mem))
      v (h v List.mem_cons_self) .opened, List.append_nil]

end

/-- Nothing is trimmed from an array text. -/
lemma trim_serializeArray (items : List Value) :
    Text.trim (Value.serializeArray items) = Value.serializeArray items := by
  have others : ∀ items, ∃ t, Value.serializeOthers items = t ++ [']'] := by
    intro items
    induction items with
    | nil => exact ⟨[], by simp [Value.serializeOthers]⟩
    | cons item items ih =>
      obtain ⟨t, e⟩ := ih
      exact ⟨',' :: item.serialize ++ t, by simp [Value.serializeOthers, e]⟩
  have last : ∃ t, Value.serializeArray items = t ++ [']'] := by
    cases items with
    | nil => exact ⟨['['], by simp [Value.serializeArray, Value.serialize, Value.serializeItems]⟩
    | cons item items =>
      obtain ⟨t, e⟩ := others items
      exact ⟨'[' :: item.serialize ++ t,
        by simp [Value.serializeArray, Value.serialize, Value.serializeItems, e]⟩
  apply Text.trim_eq_self
  · intro c first
    cases first
    decide
  · intro c isLast
    obtain ⟨t, e⟩ := last
    rw [e, List.getLast?_concat] at isLast
    cases isLast
    decide

/-- A list whose items read back is read back from its text. -/
lemma parse_serializeArray {items : List Value} (h : ∀ v ∈ items, ReadsBack [] v) :
    parse (Value.serializeArray items) = .ok items := by
  have fed : Reader.feed {} (Value.serializeArray items) = .ok ⟨.finished items, []⟩ := by
    have opens : Reader.step {} '[' = .ok ⟨.opened, [[]]⟩ := rfl
    rw [Value.serializeArray, Value.serialize, Reader.feed_cons opens, feed_serializeItems h]
    simp [Reader.close]
  rw [parse, trim_serializeArray]
  exact congrArg (· >>= Reader.finish) fed

/-- Texts of a list are read back from its array text. -/
lemma parse_texts (texts : List Text) :
    parse (Value.serializeArray (texts.map .text)) = .ok (texts.map .text) := by
  apply parse_serializeArray
  intro v mem
  obtain ⟨t, _, rfl⟩ := List.mem_map.1 mem
  exact .text t

end Sigil.ArrayText
