import Mathlib.Tactic.Common
import Mathlib.Tactic.IntervalCases
import Sigil.Proofs.ArrayText.Items

/-!
# Array texts keep their values

A list of values is written as an array text and read back. `Storable` are the values that come back
as they were: texts, truth values, whole numbers that are not too large, and lists of such values,
as long as there are not more levels of lists than the reader allows (`Storable.readsBack`).

A whole number takes a detour on its way. It is written in decimal digits, these are gathered in a
word (`gather_toDigits`), and the word is rounded to a double, which changes nothing because the
number was a double before (`Double.ofNat_of_units`).
-/

namespace Sigil

namespace Double

/-- A quotient without a remainder is not rounded. -/
lemma roundDiv_of_dvd {num den : Nat} (pos : 0 < den) (h : den ∣ num) :
    roundDiv num den = num / den := by
  have none : num % den = 0 := Nat.mod_eq_zero_of_dvd h
  simp [roundDiv, none, pos]

/-- What keeps to 53 binary digits is not rounded. -/
lemma roundUnits_of_dvd {units : Nat} (h : twoPow (quantum units) ∣ units) :
    roundUnits units 1 = units := by
  simp only [roundUnits, Nat.div_one, Nat.one_mul, roundDiv_of_dvd (twoPow_pos _) h,
    Nat.div_mul_cancel h]

/-- A whole number that is a double is not rounded. -/
lemma ofNat_of_units {n units : Nat} (e : n * one = units) (negative : Bool)
    (representable : Representable units) :
    ofNat negative n = .finite negative units representable := by
  subst e
  have exact := roundUnits_of_dvd representable.quantum_dvd
  have lt : roundUnits (n * one) 1 < overflow := by
    rw [exact]
    exact representable.lt_overflow
  rw [ofNat, ofRatio, dif_pos lt]
  simp only [exact]

/-- The double is a whole number, smaller in size than `9 * 10 ^ 15`, and not negative zero. -/
inductive IsModest : Double → Prop where
  | whole {negative n units} {representable : Representable units} :
    units = n * one → n < 9 * 10 ^ 15 → (negative = true → n ≠ 0) →
    IsModest (.finite negative units representable)

/-- A modest number is written as the whole number that it is. -/
lemma serialize_of_modest {negative : Bool} {n : Nat} {units : Nat} (e : units = n * one)
    (lt : n < 9 * 10 ^ 15) (representable : Representable units) :
    serialize (.finite negative units representable) = Layout.whole negative n := by
  have pos : 0 < one := twoPow_pos places
  have whole : units % one = 0 := by rw [e, Nat.mul_mod_left]
  have small : units < 9 * tenPow 15 * one := by
    rw [e]
    exact Nat.mul_lt_mul_of_pos_right lt pos
  have size : units / one = n := by rw [e, Nat.mul_div_cancel n pos]
  simp only [serialize, whole?, whole, small, size, and_self, if_true]

end Double

namespace ArrayText

/-! ### Figures -/

namespace Figure

/-- Digits that fit into the word are all gathered. -/
lemma gather_eq {word : Nat} {digits : Text} (h : Nat.ofDigitChars 10 digits word < twoPow 64) :
    gather word digits = (Nat.ofDigitChars 10 digits word, 0) := by
  induction digits generalizing word with
  | nil => rfl
  | cons c digits ih =>
    rw [Nat.ofDigitChars_cons] at h ⊢
    -- later digits do not make the word smaller, so it fits all the time
    have le : 10 * word + (c.toNat - '0'.toNat) ≤
        Nat.ofDigitChars 10 digits (10 * word + (c.toNat - '0'.toNat)) := by
      rw [Nat.ofDigitChars_eq_ofDigitChars_zero]
      exact Nat.le_add_right_of_le (Nat.le_mul_of_pos_left _ (Nat.pow_pos (by decide)))
    rw [gather, if_pos (Nat.lt_of_le_of_lt le h), ih h]

/-- A whole number that fits 64 bits is gathered from its digits without dropping any. -/
lemma gather_toDigits {n : Nat} (h : n < twoPow 64) :
    gather 0 (Nat.toDigits 10 n) = (n, 0) := by
  rw [gather_eq, Nat.ofDigitChars_ten_toDigits]
  rwa [Nat.ofDigitChars_ten_toDigits]

/-- A whole number whose digits have all been read. -/
def ofWhole (negative : Bool) (n : Nat) : Figure :=
  { stage := if n = 0 then .zero else .whole, negative, whole := Nat.toDigits 10 n }

/-- What was read of a whole number is a zero, or digits in front of the point. -/
lemma stage_ofWhole (negative : Bool) (n : Nat) :
    (ofWhole negative n).stage = .zero ∨ (ofWhole negative n).stage = .whole := by
  unfold ofWhole
  by_cases h : n = 0 <;> simp [h]

/-- A whole number that fits is found as it was written. -/
lemma found_ofWhole {negative : Bool} {n : Nat} (lt : n ≤ twoPow 63)
    (sign : negative = true → n ≠ 0) :
    (ofWhole negative n).found = .ok (.integer negative n) := by
  have fits : gather 0 (ofWhole negative n).whole = (n, 0) :=
    gather_toDigits (Nat.lt_of_le_of_lt lt (by decide))
  have small : ¬ (negative = true ∧ (n = 0 ∨ twoPow 63 < n)) := by
    rintro ⟨h, zero | large⟩
    · exact sign h zero
    · exact Nat.not_lt.2 lt large
  simp only [found, fits]
  rw [if_pos ⟨stage_ofWhole negative n, trivial⟩]
  exact if_neg small

end Figure

section
variable {place : Place} {lists : List (List Value)} {negative : Bool} {n d : Nat}

/-- One digit starts a number, also behind a sign. -/
lemma feed_digit (ready : place.Ready) (sign : negative = true → n ≠ 0) (lt : n < 10) :
    Reader.feed ⟨place, lists⟩ (Layout.sign negative ++ [Nat.digitChar n]) =
      .ok ⟨.figure (.ofWhole negative n), lists⟩ := by
  cases negative with
  | false => interval_cases n <;> cases ready <;> rfl
  | true =>
    have pos : 0 < n := Nat.pos_of_ne_zero (sign rfl)
    interval_cases n <;> cases ready <;> rfl

/-- One more digit of a number that has begun. -/
lemma step_digit (pos : 0 < n) (lt : d < 10) :
    Reader.step ⟨.figure (.ofWhole negative n), lists⟩ (Nat.digitChar d) =
      .ok ⟨.figure (.ofWhole negative (10 * n + d)), lists⟩ := by
  have digit : (Nat.digitChar d).isDigit = true := by simpa [Nat.isDigit_digitChar] using lt
  have digits : Nat.toDigits 10 n ++ [Nat.digitChar d] = Nat.toDigits 10 (10 * n + d) := by
    rw [← Nat.toDigits_of_lt_base lt, Nat.toDigits_append_toDigits (by decide) pos lt]
  have advance : (Figure.ofWhole negative n).advance (Nat.digitChar d) =
      .ok (some (.ofWhole negative (10 * n + d))) := by
    have ne : ¬ n = 0 := by omega
    have ne' : ¬ 10 * n + d = 0 := by omega
    simp only [Figure.advance, Figure.ofWhole, if_neg ne, if_neg ne', digit, if_true, digits]
  simp only [Reader.step, advance]
  rfl

/-- A whole number is read digit by digit. -/
lemma feed_whole (ready : place.Ready) (sign : negative = true → n ≠ 0) :
    Reader.feed ⟨place, lists⟩ (Layout.sign negative ++ Nat.toDigits 10 n) =
      .ok ⟨.figure (.ofWhole negative n), lists⟩ := by
  induction n using Nat.strongRecOn with
  | _ n ih =>
    by_cases lt : n < 10
    · rw [Nat.toDigits_of_lt_base lt]
      exact feed_digit ready sign lt
    · -- all digits but the last are those of the tenth part
      have pos : 0 < n / 10 := by omega
      have front := ih (n / 10) (by omega) fun _ => Nat.ne_of_gt pos
      have last := @step_digit lists negative _ (n % 10) pos (by omega)
      rw [Nat.div_add_mod] at last
      rw [Nat.toDigits_of_base_le (by decide) (by omega), ← List.append_assoc,
        Reader.feed_append front, Reader.feed_cons last]
      rfl

end

/-! ### Values -/

section
variable {outer : List (List Value)} {items : List Value} {negative : Bool} {n : Nat}

/-- A comma or bracket ends a number, which is taken up. -/
lemma step_ofWhole (le : n ≤ twoPow 63) (sign : negative = true → n ≠ 0) {c : Char}
    (hc : c = ',' ∨ c = ']') :
    Reader.step ⟨.figure (.ofWhole negative n), items :: outer⟩ c =
      Reader.separate ⟨.item, (.number (.ofNat negative n) :: items) :: outer⟩ c := by
  have ends : (Figure.ofWhole negative n).advance c = .ok none := by
    have digit : c.isDigit = false := by rcases hc with rfl | rfl <;> rfl
    have mark : (Figure.ofWhole negative n).mark? c true = none := by
      rcases hc with rfl | rfl <;> rfl
    unfold Figure.advance
    rcases Figure.stage_ofWhole negative n with stage | stage
    · simp only [stage, digit, mark, Bool.false_eq_true, if_false]
    · simp only [stage, digit, mark, Bool.false_eq_true, if_false]
  simp only [Reader.step, ends, Figure.found_ofWhole le sign]
  rfl

/-- A modest number reads back. -/
lemma ReadsBack.number {x : Double} (h : x.IsModest) : ReadsBack outer (.number x) := by
  intro place ready items c hc
  cases h with
  | @whole negative n units _ e lt sign =>
    have le : n ≤ twoPow 63 := Nat.le_of_lt (Nat.lt_trans lt (by decide))
    have written : Layout.whole negative n = Layout.sign negative ++ Nat.toDigits 10 n := by
      cases negative with
      | false => rfl
      | true => simp [Layout.whole, bne_iff_ne.2 (sign rfl)]
    rw [Value.serialize, Double.serialize_of_modest e lt, written,
      Reader.feed_append (feed_whole ready sign), ← Double.ofNat_of_units e.symm]
    simp [Reader.feed, step_ofWhole le sign hc]

/-- Both truth values read back. -/
lemma ReadsBack.bool (b : Bool) : ReadsBack outer (.bool b) := by
  refine .of_feed fun place ready items => ?_
  cases b <;> cases ready <;> rfl

/-- A list reads back if its items do one level deeper, provided that there is room for it. -/
lemma ReadsBack.array (h : ∀ before : List Value, ∀ v ∈ items, ReadsBack (before :: outer) v)
    (room : outer.length + 2 < Reader.maxDepth) : ReadsBack outer (.array items) := by
  refine .of_feed fun place ready before => ?_
  have opens : Reader.step ⟨place, before :: outer⟩ '[' = .ok ⟨.opened, [] :: before :: outer⟩ := by
    cases ready <;> exact if_pos room
  rw [Value.serialize, Reader.feed_cons opens, feed_serializeItems (h before)]
  simp [Reader.close]

end

/-- The values that an array text keeps, with at most so many levels of lists. -/
inductive Storable : (levels : Nat) → Value → Prop where
  | text {levels} (t : Text) : Storable levels (.text t)
  | bool {levels} (b : Bool) : Storable levels (.bool b)
  | number {levels} {x : Double} : x.IsModest → Storable levels (.number x)
  | array {levels} {items : List Value} :
    (∀ v ∈ items, Storable levels v) → Storable (levels + 1) (.array items)

/-- A storable value reads back where there is room for its levels. -/
lemma Storable.readsBack {levels : Nat} {v : Value} (h : Storable levels v)
    {outer : List (List Value)} (room : outer.length + 1 + levels < Reader.maxDepth) :
    ReadsBack outer v := by
  induction h generalizing outer with
  | text t => exact .text t
  | bool b => exact .bool b
  | number modest => exact .number modest
  | @array levels items _ ih =>
    refine .array (fun before v mem => ih v mem ?_) (by omega)
    rw [List.length_cons]
    omega

/-- A list of texts, truth values, modest numbers and such lists, at most 127 levels of them with
itself as the first, is read back from its array text as it was; so no other such list has the same
array text. -/
theorem storable_round_trip {items : List Value} (h : Storable 127 (.array items)) :
    parse (Value.serializeArray items) = .ok items ∧
      ∀ others, Storable 127 (.array others) →
        Value.serializeArray others = Value.serializeArray items → others = items := by
  have reads : ∀ {items}, Storable 127 (.array items) →
      parse (Value.serializeArray items) = .ok items := by
    intro items h
    cases h with
    | array h => exact parse_serializeArray fun v mem => (h v mem).readsBack (by decide)
  refine ⟨reads h, fun others h' same => ?_⟩
  have both : Except.ok others = Except.ok (ε := Problem) items := by
    rw [← reads h', same, reads h]
  exact Except.ok.inj both

/-- An escaped line end, the lowest whole number that is kept, and an empty list in a list. -/
theorem storable_round_trip_nested :
    parse "[\"a\\n\",-8999999999999999,[true,[]]]".toList = .ok [.text ['a', '\n'],
      .number (.ofNat true 8999999999999999), .array [.bool true, .array []]] := by
  have representable : Double.Representable (8999999999999999 * Double.one) := by decide +kernel
  have modest : (Double.ofNat true 8999999999999999).IsModest := by
    rw [Double.ofNat_of_units rfl true representable]
    exact .whole rfl (by decide) (by decide)
  have storable : ∀ {x : Double}, x.IsModest → Storable 127
      (.array [.text ['a', '\n'], .number x, .array [.bool true, .array []]]) := by
    intro x modest
    refine .array (List.forall_mem_cons.2 ⟨.text _, List.forall_mem_cons.2 ⟨.number modest, ?_⟩⟩)
    refine List.forall_mem_singleton.2 (.array (List.forall_mem_cons.2 ⟨.bool true, ?_⟩))
    exact List.forall_mem_singleton.2 (.array nofun)
  have written : Value.serializeArray [.text ['a', '\n'],
      .number (.ofNat true 8999999999999999), .array [.bool true, .array []]] =
        "[\"a\\n\",-8999999999999999,[true,[]]]".toList := by decide +kernel
  rw [← written]
  exact (storable_round_trip (storable modest)).1

end ArrayText

end Sigil
