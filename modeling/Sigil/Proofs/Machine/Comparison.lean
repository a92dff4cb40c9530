import Mathlib.Algebra.Order.Field.Basic
import Mathlib.Algebra.Order.Field.Rat
import Mathlib.Order.Compare
import Mathlib.Tactic.Common
import Sigil.Proofs.Machine.Recursion

/-!
# Comparisons

Equality and order of values are two functions, and each of them decides anew whether two values are
compared as numbers or as texts. For the operands of a statement they come from one order,
`Text.operandOrder`: of the numbers that the trimmed texts denote if both denote one, and of their
code points otherwise (`Value.compare_operands`, `Value.same_operands`). `Keyword.yields` is what a
comparison makes of this order, and `Machine.Compares.eval_eq` says that the statement gives it.

The order changes its rule from pair to pair, and it is in fact not transitive: `9` comes before
`10` and `10` before `10x`, but `10x` comes before `9`. Equality is: two operands are equal exactly
if they have the same `Text.sense` (`Text.operandOrder_eq_iff`), and a text with a number never
equals one without.
-/

namespace Sigil

/-! ### Numbers -/

namespace Double

/-- The number that a finite double denotes. -/
def toRat? : Double → Option ℚ
  | .finite negative units _ =>
    some ((if negative then -(units : ℚ) else units) / 2 ^ places)
  | _ => none

/-- The number that is denoted and the rank are the same, up to the unit. -/
lemma toRat?_inv {x : Double} {q : ℚ} (h : x.toRat? = some q) :
    ∃ n : Int, x.rank = some n ∧ q = n / 2 ^ places := by
  cases x with
  | nan | infinite => cases h
  | finite negative units _ =>
    cases h
    refine ⟨_, rfl, ?_⟩
    cases negative <;> simp

/-- Doubles are compared as the numbers that they denote. -/
lemma compare_eq {x y : Double} {p q : ℚ} (hx : x.toRat? = some p) (hy : y.toRat? = some q) :
    x.compare y = some (Ord.compare p q) := by
  obtain ⟨n, hn, rfl⟩ := toRat?_inv hx
  obtain ⟨n', hn', rfl⟩ := toRat?_inv hy
  have mono : StrictMono fun n : Int => (n : ℚ) / 2 ^ places := by
    intro n n' lt
    have lt' : (n : ℚ) < n' := Int.cast_lt.2 lt
    exact (div_lt_div_iff_of_pos_right (pow_pos two_pos _)).2 lt'
  have same := mono.cmp_map_eq n n'
  rw [cmp_eq_compare, cmp_eq_compare] at same
  rw [same, compare, hn, hn']
  rfl

/-- A number that was read is finite. -/
lemma toRat?_ofText? {t : Text} {x : Double} (h : ofText? t = some x) : ∃ q, x.toRat? = some q := by
  simp only [ofText?, Option.bind_eq_bind, Option.bind_eq_some_iff] at h
  obtain ⟨n, -, h⟩ := h
  split at h
  · rename_i finite
    cases h
    cases e : n.toDouble with
    | nan | infinite => simp [e, isFinite] at finite
    | finite => exact ⟨_, rfl⟩
  · cases h

end Double

/-! ### Texts -/

namespace Text

/-- Texts are compared by their code points. -/
lemma compare_eq (s t : Text) :
    compare s t = Ord.compare (s.map Char.toNat) (t.map Char.toNat) := by
  fun_induction compare s t with
  | case1 | case2 | case3 => rfl
  | case4 a s b t ih => rw [ih, List.map_cons, List.map_cons, List.compare_cons_cons]

/-- Texts with the same code points are the same. -/
lemma map_toNat_inj {s t : Text} : s.map Char.toNat = t.map Char.toNat ↔ s = t :=
  List.map_inj_right fun _ _ => Char.toNat_inj.1

/-- The number that a text denotes, read as a double. -/
def number? (t : Text) : Option ℚ :=
  (Double.ofText? t).bind Double.toRat?

/-- The order of the operands of a comparison: of their numbers if both denote one, otherwise of
their code points. Blanks around them do not count. -/
def operandOrder (a b : Text) : Ordering :=
  match number? (trim a), number? (trim b) with
  | some p, some q => Ord.compare p q
  | _, _ => Ord.compare ((trim a).map Char.toNat) ((trim b).map Char.toNat)

/-- What an operand stands for: its number if it denotes one, otherwise itself. -/
def sense (a : Text) : ℚ ⊕ Text :=
  match number? (trim a) with
  | some q => .inl q
  | none => .inr (trim a)

/-- Operands in the other order stand in the opposite order. -/
lemma operandOrder_swap (a b : Text) : operandOrder b a = (operandOrder a b).swap := by
  unfold operandOrder
  cases number? (trim a) <;> cases number? (trim b) <;> exact Std.OrientedOrd.eq_swap

/-- Operands are equal if they stand for the same. -/
lemma operandOrder_eq_iff {a b : Text} : operandOrder a b = .eq ↔ sense a = sense b := by
  have texts : Ord.compare ((trim a).map Char.toNat) ((trim b).map Char.toNat) = .eq ↔
      trim a = trim b := by
    rw [Std.compare_eq_iff_eq, map_toNat_inj]
  unfold operandOrder sense
  cases ha : number? (trim a) with
  | some p =>
    cases hb : number? (trim b) with
    | some q => simp
    | none =>
      -- equal texts would both denote a number
      have ne : trim a ≠ trim b := fun e => by simp [e, hb] at ha
      simp [texts, ne]
  | none =>
    cases hb : number? (trim b) with
    | some q =>
      have ne : trim a ≠ trim b := fun e => by simp [← e, ha] at hb
      simp [texts, ne]
    | none => simp [texts]

end Text

namespace Value

/-- Values are the same exactly if neither comes before the other. -/
lemma same_iff (a b : Value) : a.same b = true ↔ a.compare b = some .eq := by
  unfold same compare
  split
  · rw [Double.equal, beq_iff_eq]
  · rw [Text.compare_eq, beq_iff_eq, Option.some_inj, Std.compare_eq_iff_eq, Text.map_toNat_inj]

/-- Operands are compared by their order. -/
lemma compare_operands (a b : Text) :
    (Value.text (Text.trim a)).compare (.text (Text.trim b)) = some (Text.operandOrder a b) := by
  unfold compare Text.operandOrder Text.number?
  simp only [number?, toText, Text.compare_eq]
  cases ha : Double.ofText? (Text.trim a) with
  | none => rfl
  | some x =>
    obtain ⟨p, hp⟩ := Double.toRat?_ofText? ha
    cases hb : Double.ofText? (Text.trim b) with
    | none => simp [hp]
    | some y =>
      obtain ⟨q, hq⟩ := Double.toRat?_ofText? hb
      simp [hp, hq, Double.compare_eq hp hq]

/-- Two operands are the same text exactly if neither comes before the other. -/
lemma same_operands (a b : Text) :
    (Value.text (Text.trim a)).same (.text (Text.trim b)) = (Text.operandOrder a b == .eq) := by
  rw [Bool.eq_iff_iff, same_iff, compare_operands, Option.some_inj, beq_iff_eq]

end Value

/-! ### Statements -/

/-- What a comparison of two operands gives. -/
def Keyword.yields (keyword : Keyword) (a b : Text) : Bool :=
  match keyword with
  | .eq => Text.operandOrder a b == .eq
  | .op => Text.operandOrder a b != .eq
  | .lt => Text.operandOrder a b == .lt
  | .gt => Text.operandOrder a b == .gt
  | _ => false

/-- The statement at a site is a comparison of two operands. -/
structure Machine.Compares (m : Machine) (site : Site) (keyword : Keyword) (a b : Text) :
    Prop where
  isComparison : keyword ∈ [Keyword.eq, .lt, .gt, .op]
  word : Keyword.ofText? (m.textAt site) = some keyword
  left : m.require site keyword .block 0 = .ok a
  right : m.require site keyword .block 1 = .ok b

namespace Machine.Compares

variable {host : Host} {m : Machine} {site : Site} {keyword : Keyword} {a b : Text}

/-- A statement that compares has one of four keywords. -/
lemma cases (h : m.Compares site keyword a b) :
    keyword = .eq ∨ keyword = .lt ∨ keyword = .gt ∨ keyword = .op := by
  simpa using h.isComparison

/-- Whether a comparison holds, also as the condition of a block. -/
lemma holdsAt_eq (h : m.Compares site keyword a b) :
    Statement.holdsAt m site = .ok (keyword.yields a b) := by
  have test : ∀ test, Statement.comparison m site keyword test =
      .ok (test (.text (Text.trim a)) (.text (Text.trim b))) := by
    intro test
    rw [Statement.comparison, h.left, h.right]
    rfl
  unfold Statement.holdsAt
  rw [h.word]
  rcases h.cases with rfl | rfl | rfl | rfl <;>
    simp only [test, Keyword.yields, Value.same_operands, Value.compare_operands,
      Option.some_beq_some, bne]

/-- A comparison has a node. -/
lemma index_lt (h : m.Compares site keyword a b) : site.index < (m.nodes site.script).length := by
  by_contra ge
  have text : m.textAt site = [] := by
    rw [Machine.textAt, List.getElem?_eq_none (Nat.not_lt.1 ge)]
    rfl
  have none : Keyword.ofText? [] = none := by decide +kernel
  have word := h.word
  rw [text, none] at word
  cases word

/-- A comparison is read as whether it holds. -/
lemma readAt_eq (h : m.Compares site keyword a b) :
    Statement.readAt host m site = .ok (.compare (keyword.yields a b)) := by
  simp only [Statement.readAt, h.word]
  have holds := h.holdsAt_eq
  rcases h.cases with rfl | rfl | rfl | rfl <;>
    simp only [Statement.ofKeyword, holds] <;> rfl

/-- A comparison gives what it yields, and only the journal tells that it began. -/
lemma eval_eq (h : m.Compares site keyword a b) : Statement.eval host site m =
    .ok (some (.bool (keyword.yields a b))) (m.log (.began site m.store.current m.depth)) := by
  have began : (m.log (.began site m.store.current m.depth)).Compares site keyword a b :=
    ⟨h.isComparison, h.word, h.left, h.right⟩
  rw [Statement.eval_eq h.index_lt, Statement.evalAt]
  simp only [began.readAt_eq]
  rfl

end Machine.Compares

/-- Comparisons are consistent. What a comparison gives, as a statement and as a condition, is read
off one order of its operands. Exactly one of `lt`, `eq` and `gt` is true of two operands; `op` is
the opposite of `eq`. If the operands change places, so do `lt` and `gt`, and `eq` stays. Equality is
an equivalence of operands, however their numbers are spelled. And of any two values, equality and
order say the same. -/
theorem comparisons_consistent :
    (∀ host (m : Machine) site keyword a b, m.Compares site keyword a b →
      Statement.holdsAt m site = .ok (keyword.yields a b) ∧ Statement.eval host site m =
        .ok (some (.bool (keyword.yields a b))) (m.log (.began site m.store.current m.depth))) ∧
    (∀ a b, ∃! keyword, keyword ∈ [Keyword.lt, .eq, .gt] ∧ keyword.yields a b = true) ∧
    (∀ a b, Keyword.op.yields a b = !Keyword.eq.yields a b) ∧
    (∀ a b, Keyword.lt.yields b a = Keyword.gt.yields a b ∧
      Keyword.gt.yields b a = Keyword.lt.yields a b ∧
      Keyword.eq.yields b a = Keyword.eq.yields a b) ∧
    Equivalence (fun a b => Keyword.eq.yields a b = true) ∧
    ∀ x y : Value, x.same y = true ↔ x.compare y = some .eq := by
  refine ⟨fun host m site keyword a b h => ⟨h.holdsAt_eq, h.eval_eq⟩, fun a b => ?_, fun a b => rfl,
    fun a b => ?_, ?_, Value.same_iff⟩
  · cases e : Text.operandOrder a b <;> simp [ExistsUnique, Keyword.yields, e]
  · simp only [Keyword.yields, Text.operandOrder_swap a b]
    cases Text.operandOrder a b <;> exact ⟨rfl, rfl, rfl⟩
  · simp only [Keyword.yields, beq_iff_eq, Text.operandOrder_eq_iff]
    exact ⟨fun _ => rfl, Eq.symm, Eq.trans⟩

/-- Two spellings of one number: the statement tells that they are equal, not that the first comes
before the second, although it does so as a text. -/
theorem comparisons_consistent_spellings :
    let m := (({} : Machine).runSource { loader := .ofList [] } "main".toList
      "@eq \x7b1\x7d \x7b 1e0 \x7d @lt \x7b1\x7d \x7b 1e0 \x7d".toList).2
    Statement.holdsAt m ⟨0, 0⟩ = .ok true ∧ Statement.holdsAt m ⟨0, 3⟩ = .ok false := by
  intro m
  have equal : m.Compares ⟨0, 0⟩ .eq "1".toList " 1e0 ".toList :=
    ⟨by decide, by decide +kernel, by decide +kernel, by decide +kernel⟩
  have less : m.Compares ⟨0, 3⟩ .lt "1".toList " 1e0 ".toList :=
    ⟨by decide, by decide +kernel, by decide +kernel, by decide +kernel⟩
  have yields : Keyword.eq.yields "1".toList " 1e0 ".toList = true ∧
      Keyword.lt.yields "1".toList " 1e0 ".toList = false := by decide +kernel
  have eq := (comparisons_consistent.1 { loader := .ofList [] } m _ _ _ _ equal).1
  have lt := (comparisons_consistent.1 { loader := .ofList [] } m _ _ _ _ less).1
  exact ⟨yields.1 ▸ eq, yields.2 ▸ lt⟩

end Sigil
