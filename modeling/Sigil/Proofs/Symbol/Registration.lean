import Mathlib.Tactic.Common
import Sigil.Proofs.Symbol.Table

/-!
# Registering records

A table takes any entry, under a key or without one: also a function without a key, a variable under
one, and two variables of the same name and scope. Running scripts never asks for these, but the
addresses do not depend on it. Whatever is registered and whatever texts are changed (`Change`), the
table stays `Placed` (`Placed.afterAll`). So the number that comes next was never given out before,
and a record stays at its place and changes by what is meant for its address only
(`Placed.getElem?_afterAll`).
-/

namespace Sigil.Table

/-- What can be done to a table. -/
inductive Change where
  /-- Registers an entry, under a key if there is one. -/
  | register (entry : Entry) (key : Option Text)
  /-- Gives the variable at an address a new text. -/
  | setText (address : Address) (text : Text)
deriving DecidableEq

/-- The table after a change. -/
def after (t : Table) : Change → Table
  | .register entry key => (t.register entry key).2
  | .setText address text => t.setText address text

/-- The table after a row of changes. -/
def afterAll (t : Table) (changes : List Change) : Table :=
  changes.foldl after t

/-- The addresses that the registrations in a row of changes tell, in order. -/
def told : Table → List Change → List Address
  | _, [] => []
  | t, .register entry key :: later =>
    (t.register entry key).1 :: told (t.register entry key).2 later
  | t, .setText address text :: later => told (t.setText address text) later

/-- What a change makes of the entry that an address has. A registration without a key is meant for
no address that is there. -/
def Change.entryAt (address : Address) (entry : Entry) : Change → Entry
  | .register _ none => entry
  | .register new (some key) => if address = .named key then new else entry
  | .setText changed text =>
    match entry with
    | .variable v => if address = changed then .variable { v with text } else entry
    | .function _ => entry

variable {t : Table} {i : Nat} {s : Symbol}

/-! ### One change -/

/-- The address of a record is one of the addresses of the table. -/
lemma mem_addresses (hi : t.records[i]? = some s) : s.address ∈ t.addresses :=
  List.mem_map.2 ⟨s, List.mem_of_getElem? hi, rfl⟩

/-- What was put into a table is found at its address. -/
lemma mem_addresses_put (t : Table) (new : Symbol) : new.address ∈ (t.put new).addresses := by
  rw [addresses_put]
  split
  · assumption
  · exact List.mem_append_right _ (List.mem_singleton.2 rfl)

/-- A record that is put in replaces the one of its address; all others stay at their places. -/
lemma getElem?_put (hi : t.records[i]? = some s) (new : Symbol) :
    (t.put new).records[i]? = some (if s.address = new.address then new else s) := by
  by_cases known : new.address ∈ t.addresses
  · simp [put_of_mem known, hi]
  · have ne : s.address ≠ new.address := by
      intro e
      exact known (e ▸ mem_addresses hi)
    have lt := (List.getElem?_eq_some_iff.1 hi).1
    rw [put_of_not_mem known, if_neg ne, List.getElem?_append_left lt, hi]

/-- A record of an address that is there takes the place of the one that has it. -/
lemma Placed.put_eq_set (placed : t.Placed) (hi : t.records[i]? = some s) {new : Symbol}
    (e : s.address = new.address) : t.put new = ⟨t.records.set i new⟩ := by
  have others : ∀ s' : Symbol, s'.address ≠ s.address →
      (if s'.address = new.address then new else s') = s' := by
    intro s' ne
    exact if_neg (e ▸ ne)
  have set := placed.map_eq_set hi others
  rw [if_pos e] at set
  rw [put_of_mem (e ▸ mem_addresses hi), set]

/-- What is registered has its key or the next number as address. -/
lemma freshAddress_cases (t : Table) (key : Option Text) :
    t.freshAddress key = .number (t.size * stride) ∨ ∃ name, t.freshAddress key = .named name := by
  cases key with
  | none => exact .inl rfl
  | some name => exact .inr ⟨name, rfl⟩

/-- A record that has the next number or a name as address can be put into a table. -/
lemma Placed.put (placed : t.Placed) {new : Symbol}
    (home : new.address = .number (t.size * stride) ∨ ∃ name, new.address = .named name) :
    (t.put new).Placed where
  home i s hs := by
    by_cases known : new.address ∈ t.addresses
    · rw [put_of_mem known, List.getElem?_map, Option.map_eq_some_iff] at hs
      obtain ⟨old, hi, rfl⟩ := hs
      split
      · -- the address of the new record is that of the old one
        rename_i e
        exact e ▸ placed.home hi
      · exact placed.home hi
    · rw [put_of_not_mem known, List.getElem?_append] at hs
      split at hs
      · exact placed.home hs
      · obtain ⟨lt, e⟩ := List.getElem?_eq_some_iff.1 hs
        rw [List.getElem_singleton] at e
        have last : i = t.size := by
          simp only [List.length_singleton] at lt
          simp only [size]
          omega
        exact e ▸ last ▸ home
  nodup := by
    rw [addresses_put]
    split
    · exact placed.nodup
    · rename_i new
      refine List.nodup_append.2 ⟨placed.nodup, List.nodup_singleton _, ?_⟩
      rintro a mem b hb rfl
      exact new (List.mem_singleton.1 hb ▸ mem)

/-- Any change keeps the addresses unique. -/
lemma Placed.after (placed : t.Placed) (change : Change) : (t.after change).Placed := by
  cases change with
  | register entry key => exact placed.put (t.freshAddress_cases key)
  | setText address text =>
    refine ⟨fun i s hs => ?_, by simpa [Table.after] using placed.nodup⟩
    rw [Table.after, records_setText, List.getElem?_map, Option.map_eq_some_iff] at hs
    obtain ⟨old, hi, rfl⟩ := hs
    exact withText_address address text old ▸ placed.home hi

/-- A record stays at its place, and changes by what is meant for its address only. -/
lemma Placed.getElem?_after (placed : t.Placed) (hi : t.records[i]? = some s) (change : Change) :
    (t.after change).records[i]? = some ⟨s.address, change.entryAt s.address s.entry⟩ := by
  cases change with
  | register entry key =>
    refine (getElem?_put hi _).trans (congrArg some ?_)
    cases key with
    | none =>
      have ne : s.address ≠ .number (t.size * stride) := by
        intro e
        exact placed.fresh (e ▸ mem_addresses hi)
      exact if_neg ne
    | some key =>
      simp only [freshAddress, Change.entryAt]
      by_cases e : s.address = .named key <;> simp [e]
  | setText address text =>
    rw [Table.after, records_setText, List.getElem?_map, hi, Option.map_some]
    obtain ⟨a, v | f⟩ := s
    · by_cases e : a = address <;> simp [withText, Change.entryAt, e]
    · rfl

/-! ### Rows of changes -/

/-- Nothing is out of place in the empty table. -/
lemma Placed.empty : Placed {} :=
  Ordered.empty.placed

/-- Changes one after the other keep all records in their places. -/
lemma Placed.afterAll (placed : t.Placed) (changes : List Change) :
    (t.afterAll changes).Placed := by
  induction changes generalizing t with
  | nil => exact placed
  | cons change changes ih => exact ih (placed.after change)

/-- A record stays at its place, whatever is registered and changed later. -/
lemma Placed.getElem?_afterAll (placed : t.Placed) (hi : t.records[i]? = some s)
    (changes : List Change) : (t.afterAll changes).records[i]? =
      some ⟨s.address, changes.foldl (Change.entryAt s.address) s.entry⟩ := by
  induction changes generalizing t s with
  | nil => exact hi
  | cons change changes ih => exact ih (placed.after change) (placed.getElem?_after hi change)

/-- No address gets lost. -/
lemma Placed.addresses_afterAll (placed : t.Placed) (changes : List Change) :
    t.addresses ⊆ (t.afterAll changes).addresses := by
  intro address mem
  obtain ⟨s, hs, rfl⟩ := List.mem_map.1 mem
  obtain ⟨i, hi⟩ := List.getElem?_of_mem hs
  exact List.mem_map.2 ⟨_, List.mem_of_getElem? (placed.getElem?_afterAll hi changes), rfl⟩

/-- The address that a registration tells is one of the table from then on. -/
lemma Placed.told_subset (placed : t.Placed) {changes : List Change} {address}
    (mem : address ∈ t.told changes) : address ∈ (t.afterAll changes).addresses := by
  fun_induction told t changes with
  | case1 => cases mem
  | case2 t entry key later ih =>
    have placed' := placed.after (.register entry key)
    rcases List.mem_cons.1 mem with rfl | mem
    · exact placed'.addresses_afterAll later (mem_addresses_put t ⟨t.freshAddress key, entry⟩)
    · exact ih placed' mem
  | case3 t changed text later ih => exact ih (placed.after (.setText changed text)) mem

/-- Addresses are never used again. After any registrations and changes of texts, every record has
the number of its position as address, or a name, and no two have the same. Without a key, the next
registration adds a record at the end, and the address that it tells was not told before. With a key
that a record has, it replaces what this record holds, at its place; with any other key it adds a
record as well. A change of a text keeps all addresses. And whatever follows, a record stays at its
place with its address, and what it holds changes by what is meant for this address only. -/
theorem addresses_never_reused (changes : List Change) :
    let t := afterAll {} changes
    t.Placed ∧
    (∀ entry, t.register entry none =
        (.number (t.size * stride), ⟨t.records ++ [⟨.number (t.size * stride), entry⟩]⟩) ∧
      (t.register entry none).1 ∉ told {} changes) ∧
    (∀ entry key (i : Nat) (s : Symbol), t.records[i]? = some s → s.address = .named key →
      t.register entry (some key) = (.named key, ⟨t.records.set i ⟨.named key, entry⟩⟩)) ∧
    (∀ entry key, .named key ∉ t.addresses →
      t.register entry (some key) = (.named key, ⟨t.records ++ [⟨.named key, entry⟩]⟩)) ∧
    (∀ address text, (t.setText address text).addresses = t.addresses) ∧
    ∀ later (i : Nat) (s : Symbol), t.records[i]? = some s → (t.afterAll later).records[i]? =
      some ⟨s.address, later.foldl (Change.entryAt s.address) s.entry⟩ := by
  intro t
  have placed : t.Placed := Placed.empty.afterAll changes
  refine ⟨placed, fun entry => ⟨?_, fun mem => ?_⟩, ?_, ?_, t.addresses_setText, ?_⟩
  · exact congrArg (Prod.mk _) (put_of_not_mem placed.fresh)
  · exact placed.fresh (Placed.empty.told_subset mem)
  · exact fun entry key i s hi e => congrArg (Prod.mk _) (placed.put_eq_set hi e)
  · exact fun entry key new => congrArg (Prod.mk _) (put_of_not_mem new)
  · exact fun later i s hi => placed.getElem?_afterAll hi later

/-- The name `0` and the number `0` are two addresses: what is registered under the name twice leaves
the variable at the number alone, and the next number is a new one. -/
theorem addresses_never_reused_name_like_number :
    let x : Entry := .variable ⟨['x'], ['1'], .everywhere⟩
    let y : Entry := .variable ⟨['y'], ['2'], .everywhere⟩
    let changes : List Change := [.register x none, .register x (some ['0'])]
    let t := afterAll {} changes
    t.register y (some ['0']) = (.named ['0'], ⟨t.records.set 1 ⟨.named ['0'], y⟩⟩) ∧
      (t.afterAll [.register y (some ['0'])]).records[0]? = some ⟨.number 0, x⟩ ∧
      t.register y none = (.number 1624, ⟨t.records ++ [⟨.number 1624, y⟩]⟩) ∧
      .number 1624 ∉ told {} changes := by
  intro x y changes t
  have first : t.records[0]? = some ⟨.number 0, x⟩ := by decide
  have second : t.records[1]? = some ⟨.named ['0'], x⟩ := by decide
  have next : t.size * stride = 1624 := by decide
  obtain ⟨-, unnamed, known, -, -, kept⟩ := addresses_never_reused changes
  obtain ⟨added, new⟩ := unnamed y
  rw [next] at added
  rw [added] at new
  exact ⟨known y ['0'] 1 _ second rfl, kept _ 0 _ first, added, new⟩

end Sigil.Table
