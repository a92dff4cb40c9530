import Mathlib.Tactic.Common
import Mathlib.Data.List.Nodup
import Sigil.Symbol.Table

/-!
# The records of a symbol table

Running scripts changes a table in three ways: a variable is declared, a variable gets a new text,
and a function is defined. All three keep a table in order (`Table.Ordered`): a variable has the
address that its position gives it, a function has its name as address, and no scope has two
variables of one name. That addresses are distinct and tell the position, or are names
(`Table.Placed`), is the part of it that does not depend on what the records hold.

What the rest of the machine refers to is the address, the name and the scope of each variable, the
`declarations` of the table. A new declaration comes last (`declarations_declare`); new texts and
new functions leave the declarations alone (`declarations_setText`, `declarations_define`).
-/

namespace Sigil.Table

/-- The address, name and scope of every variable. -/
def declarations (t : Table) : List (Address × Text × Scope) :=
  t.variableList.map fun (address, v) => (address, v.name, v.scope)

/-- All functions. -/
def functions (t : Table) : List Function :=
  t.records.filterMap Symbol.asFunction

/-- The table with one more variable. -/
def declare (t : Table) (v : Variable) : Table :=
  (t.register (.variable v) none).2

/-- The table with a function under its name. -/
def define (t : Table) (f : Function) : Table :=
  (t.register (.function f) (some f.name)).2

/-- The address that a record at a position has, by what it holds. -/
def homeOf (position : Nat) : Entry → Address
  | .variable _ => .number (position * stride)
  | .function f => .named f.name

/-- Every record has the address that it should have, and no two declarations or addresses are the
same. -/
structure Ordered (t : Table) : Prop where
  home : ∀ ⦃i : Nat⦄ ⦃s : Symbol⦄, t.records[i]? = some s → s.address = homeOf i s.entry
  addresses : t.addresses.Nodup
  declarations : (t.declarations.map Prod.snd).Nodup

/-- The empty table is in order. -/
lemma Ordered.empty : Ordered {} where
  home i s hs := by simp at hs
  addresses := List.nodup_nil
  declarations := List.nodup_nil

/-! ### Looking up -/

variable {t : Table}

/-- A record that was found has the address it was looked up by. -/
lemma lookup_inv {address s} (h : t.lookup address = some s) :
    s ∈ t.records ∧ s.address = address :=
  ⟨List.mem_of_find?_eq_some h, by simpa using List.find?_some h⟩

/-- Nothing is found under an address that no record has. -/
lemma lookup_eq_none_iff {address} : t.lookup address = none ↔ address ∉ t.addresses := by
  simp [lookup, addresses, List.find?_eq_none]

/-- A record is found under its address. -/
lemma Ordered.lookup_eq (ord : t.Ordered) {s} (hs : s ∈ t.records) :
    t.lookup s.address = some s := by
  cases h : t.lookup s.address with
  | none => exact absurd (List.mem_map.2 ⟨s, hs, rfl⟩) (lookup_eq_none_iff.1 h)
  | some s' =>
    obtain ⟨hs', e⟩ := lookup_inv h
    rw [List.inj_on_of_nodup_map ord.addresses hs' hs e]

/-- A variable that was found was declared with the wanted name in the wanted scope. -/
lemma variableIn_inv {name scope address v} (h : t.variableIn name scope = some (address, v)) :
    (address, v) ∈ t.variableList ∧ v.name = name ∧ v.scope = scope := by
  have mem := List.mem_reverse.1 (List.mem_of_find?_eq_some h)
  have found := List.find?_some h
  simp only [Bool.and_eq_true, beq_iff_eq] at found
  exact ⟨mem, found⟩

/-- Where no variable is found there is no declaration. -/
lemma not_mem_of_variableIn_none {name scope} (h : t.variableIn name scope = none) :
    (name, scope) ∉ t.declarations.map Prod.snd := by
  intro mem
  simp only [declarations, List.map_map, List.mem_map, Function.comp, Prod.exists] at mem
  obtain ⟨address, v, hv, e⟩ := mem
  have := List.find?_eq_none.1 h (address, v) (List.mem_reverse.2 hv)
  cases e
  simp at this

/-- What a name means at a site is a variable that can be seen from there. -/
lemma resolve_inv {name site address v} (h : t.resolve name site = some (address, v)) :
    (address, v) ∈ t.variableList ∧ v.name = name ∧ v.scope.visibleFrom site = true := by
  rw [resolve, Option.orElse_eq_orElse, Option.orElse_eq_or, Option.or_eq_some_iff] at h
  rcases h with h | ⟨_, h⟩
  · obtain ⟨mem, hn, hs⟩ := variableIn_inv h
    exact ⟨mem, hn, by simp [Scope.visibleFrom, hs]⟩
  · obtain ⟨mem, hn, hs⟩ := variableIn_inv h
    exact ⟨mem, hn, by simp [Scope.visibleFrom, hs]⟩

/-- A listed variable is a record. -/
lemma mem_variableList {address v} :
    (address, v) ∈ t.variableList ↔ (⟨address, .variable v⟩ : Symbol) ∈ t.records := by
  simp only [variableList, List.mem_filterMap]
  constructor
  · rintro ⟨⟨address', v' | f⟩, hs, e⟩
    · cases e
      exact hs
    · cases e
  · intro hs
    exact ⟨_, hs, rfl⟩

/-- Every variable is declared with its name and scope. -/
lemma mem_declarations {address v} (h : (address, v) ∈ t.variableList) :
    (address, v.name, v.scope) ∈ t.declarations :=
  List.mem_map.2 ⟨_, h, rfl⟩

/-- Every declaration is that of a variable. -/
lemma declarations_inv {address name scope} (h : (address, name, scope) ∈ t.declarations) :
    ∃ v, (address, v) ∈ t.variableList ∧ v.name = name ∧ v.scope = scope := by
  obtain ⟨⟨address', v⟩, hv, e⟩ := List.mem_map.1 h
  cases e
  exact ⟨v, hv, rfl, rfl⟩

/-- A name means nothing where no variable of this name can be seen. -/
lemma resolve_eq_none_iff {name site} : t.resolve name site = none ↔
    ∀ address v, (address, v) ∈ t.variableList → v.name = name →
      v.scope.visibleFrom site = false := by
  constructor
  · intro unknown address v mem e
    rw [resolve, Option.orElse_eq_orElse, Option.orElse_eq_or, Option.or_eq_none_iff] at unknown
    have absent : ∀ scope, t.variableIn name scope = none → v.scope ≠ scope := by
      rintro scope none rfl
      exact not_mem_of_variableIn_none none (List.mem_map.2 ⟨_, mem_declarations mem, e ▸ rfl⟩)
    simp [Scope.visibleFrom, absent _ unknown.1, absent _ unknown.2]
  · intro unseen
    refine Option.eq_none_iff_forall_ne_some.2 fun (address, v) found => ?_
    obtain ⟨mem, e, seen⟩ := resolve_inv found
    cases (unseen address v mem e).symm.trans seen

/-- An address has one declaration. -/
lemma Ordered.declarations_unique (ord : t.Ordered) {address d d'}
    (h : (address, d) ∈ t.declarations) (h' : (address, d') ∈ t.declarations) : d = d' := by
  obtain ⟨name, scope⟩ := d
  obtain ⟨name', scope'⟩ := d'
  obtain ⟨v, hv, rfl, rfl⟩ := declarations_inv h
  obtain ⟨v', hv', rfl, rfl⟩ := declarations_inv h'
  have e := ord.lookup_eq (mem_variableList.1 hv)
  have e' := ord.lookup_eq (mem_variableList.1 hv')
  cases e.symm.trans e'
  rfl

/-- A function that is found under a name is listed, and the name is its own. -/
lemma Ordered.function_inv (ord : t.Ordered) {name f} (h : t.function? name = some f) :
    f ∈ t.functions ∧ f.name = name := by
  obtain ⟨s, hs, hf⟩ := Option.bind_eq_some_iff.1 h
  obtain ⟨mem, e⟩ := lookup_inv hs
  refine ⟨List.mem_filterMap.2 ⟨s, mem, hf⟩, ?_⟩
  obtain ⟨i, hi⟩ := List.getElem?_of_mem mem
  obtain ⟨address, v | g⟩ := s
  · cases hf
  · cases hf
    have home := ord.home hi
    simp only [homeOf] at home e
    exact (Address.named.inj (e.symm.trans home)).symm

/-- A record that is put in is found under its own address only. -/
lemma lookup_put_of_ne {s : Symbol} {address} (ne : s.address ≠ address) :
    (t.put s).lookup address = t.lookup address := by
  unfold put
  split
  · have e : (fun x : Symbol => x.address == address) ∘
        (fun x => if x.address = s.address then s else x) =
        fun x => x.address == address := by
      funext x
      by_cases h : x.address = s.address <;> simp [h]
    simp only [lookup, List.find?_map, e]
    cases h : t.records.find? fun x => x.address == address with
    | none => rfl
    | some x =>
      have hx := (lookup_inv h).2
      simp [hx, ne.symm]
  · simp [lookup, List.find?_append, ne]

/-! ### Places and addresses -/

/-- Every record has the number of its position as address, or a name, and no two records have the
same address. -/
structure Placed (t : Table) : Prop where
  home : ∀ ⦃i : Nat⦄ ⦃s : Symbol⦄, t.records[i]? = some s →
    s.address = .number (i * stride) ∨ ∃ key, s.address = .named key
  nodup : t.addresses.Nodup

/-- In a table that is in order, every record is in its place. -/
lemma Ordered.placed (ord : t.Ordered) : t.Placed where
  home i s hs := by
    have home := ord.home hs
    obtain ⟨address, v | f⟩ := s
    · exact .inl home
    · exact .inr ⟨f.name, home⟩
  nodup := ord.addresses

/-- No record has the next number. -/
lemma Placed.fresh (placed : t.Placed) : .number (t.size * stride) ∉ t.addresses := by
  intro mem
  -- a number stands for a position, and all positions so far are smaller
  obtain ⟨s, hs, e⟩ := List.mem_map.1 mem
  obtain ⟨i, hi⟩ := List.getElem?_of_mem hs
  have lt : i < t.size := (List.getElem?_eq_some_iff.1 hi).1
  rcases placed.home hi with home | ⟨key, home⟩
  · have e := Address.number.inj (home.symm.trans e)
    exact absurd (Nat.eq_of_mul_eq_mul_right (by decide) e) (Nat.ne_of_lt lt)
  · cases home.symm.trans e

/-- What changes the records of one address only changes one place. -/
lemma Placed.map_eq_set (placed : t.Placed) {i s} (hi : t.records[i]? = some s)
    {change : Symbol → Symbol} (others : ∀ s', s'.address ≠ s.address → change s' = s') :
    t.records.map change = t.records.set i (change s) := by
  apply List.ext_getElem?
  intro j
  rw [List.getElem?_map, List.getElem?_set]
  have lt := (List.getElem?_eq_some_iff.1 hi).1
  by_cases e : i = j
  · subst e
    rw [hi, if_pos rfl, if_pos lt, Option.map_some]
  · rw [if_neg e]
    cases hj : t.records[j]? with
    | none => rfl
    | some s' =>
      have ne : s'.address ≠ s.address := by
        intro same
        refine e ((List.getElem?_inj (by simpa [Table.addresses] using lt) placed.nodup).1 ?_)
        simp [Table.addresses, hi, hj, same]
      rw [Option.map_some, others s' ne]

/-- A record whose address is known takes the place of the old one. -/
lemma put_of_mem {s : Symbol} (known : s.address ∈ t.addresses) :
    t.put s = ⟨t.records.map fun s' => if s'.address = s.address then s else s'⟩ := by
  have found : t.lookup s.address ≠ none := fun none => lookup_eq_none_iff.1 none known
  rw [put, if_pos (Option.isSome_iff_ne_none.2 found)]

/-- A record with a new address comes last. -/
lemma put_of_not_mem {s : Symbol} (new : s.address ∉ t.addresses) :
    t.put s = ⟨t.records ++ [s]⟩ := by
  simp [put, lookup_eq_none_iff.2 new]

/-- A record that is put in keeps all addresses, or adds its own if it was not there. -/
lemma addresses_put (t : Table) (s : Symbol) : (t.put s).addresses =
    if s.address ∈ t.addresses then t.addresses else t.addresses ++ [s.address] := by
  by_cases known : s.address ∈ t.addresses
  · rw [put_of_mem known, if_pos known, addresses, addresses, List.map_map]
    refine List.map_congr_left fun s' _ => ?_
    by_cases h : s'.address = s.address <;> simp [h]
  · rw [put_of_not_mem known, if_neg known, addresses, List.map_append]
    rfl

/-! ### Declaring a variable -/

/-- A new variable comes last. -/
lemma Ordered.records_declare (ord : t.Ordered) (v : Variable) :
    (t.declare v).records = t.records ++ [⟨.number (t.size * stride), .variable v⟩] :=
  congrArg Table.records (put_of_not_mem ord.placed.fresh)

/-- A variable that is declared comes last, at the number of its position. -/
lemma Ordered.variableList_declare (ord : t.Ordered) (v : Variable) :
    (t.declare v).variableList = t.variableList ++ [(.number (t.size * stride), v)] := by
  simp [variableList, ord.records_declare v, List.filterMap_append, Symbol.asVariable]

/-- A new declaration comes last. -/
lemma Ordered.declarations_declare (ord : t.Ordered) (v : Variable) :
    (t.declare v).declarations =
      t.declarations ++ [(.number (t.size * stride), v.name, v.scope)] := by
  simp [Table.declarations, ord.variableList_declare v]

/-- A declaration changes no functions. -/
lemma Ordered.functions_declare (ord : t.Ordered) (v : Variable) :
    (t.declare v).functions = t.functions := by
  simp [functions, ord.records_declare v, List.filterMap_append, Symbol.asFunction]

/-- A declaration does not hide a function. -/
@[simp] lemma function_declare (t : Table) (v : Variable) (name : Text) :
    (t.declare v).function? name = t.function? name := by
  have ne : Address.number (t.size * stride) ≠ .named name := by simp
  exact congrArg (·.bind Symbol.asFunction)
    (lookup_put_of_ne (s := ⟨.number (t.size * stride), .variable v⟩) ne)

/-- A declaration adds one address. -/
lemma Ordered.addresses_declare (ord : t.Ordered) (v : Variable) :
    (t.declare v).addresses = t.addresses ++ [.number (t.size * stride)] := by
  simp [Table.addresses, ord.records_declare v]

/-- The variable that was declared last is found. -/
lemma Ordered.variableIn_declare (ord : t.Ordered) (v : Variable) :
    (t.declare v).variableIn v.name v.scope = some (.number (t.size * stride), v) := by
  simp [variableIn, ord.variableList_declare v]

/-- A declaration does not change what another name means, or this one in another scope. -/
lemma Ordered.variableIn_declare_of_ne (ord : t.Ordered) {v : Variable} {name scope}
    (ne : v.name = name → v.scope ≠ scope) :
    (t.declare v).variableIn name scope = t.variableIn name scope := by
  simp only [variableIn, ord.variableList_declare v, List.reverse_append, List.reverse_singleton]
  refine List.find?_cons_of_neg ?_
  simpa using ne

/-- A new variable is what its name means wherever it can be seen. -/
lemma Ordered.resolve_declare (ord : t.Ordered) {v : Variable} {site}
    (visible : v.scope.visibleFrom site = true) (new : t.resolve v.name site = none) :
    (t.declare v).resolve v.name site = some (.number (t.size * stride), v) := by
  have here : t.variableIn v.name site = none := by
    rw [resolve, Option.orElse_eq_orElse, Option.orElse_eq_or, Option.or_eq_none_iff] at new
    exact new.1
  by_cases e : v.scope = site
  · rw [resolve, ← e, ord.variableIn_declare]
    rfl
  · have everywhere : v.scope = .everywhere := by simpa [Scope.visibleFrom, e] using visible
    rw [resolve, ord.variableIn_declare_of_ne fun _ => e, here, ← everywhere,
      ord.variableIn_declare]
    rfl

/-- A new variable does not matter for other names, nor where it cannot be seen. -/
lemma Ordered.resolve_declare_of_ne (ord : t.Ordered) {v : Variable} {name site}
    (ne : v.name = name → v.scope.visibleFrom site = false) :
    (t.declare v).resolve name site = t.resolve name site := by
  have ne : v.name = name → v.scope ≠ site ∧ v.scope ≠ .everywhere := by
    intro e
    simpa [Scope.visibleFrom, not_or, and_comm] using ne e
  rw [resolve, resolve, ord.variableIn_declare_of_ne fun e => (ne e).1,
    ord.variableIn_declare_of_ne fun e => (ne e).2]

/-- Declaring a variable that its scope does not have yet keeps the table in order. -/
lemma Ordered.declare (ord : t.Ordered) {v : Variable}
    (new : t.variableIn v.name v.scope = none) : (t.declare v).Ordered where
  home i s hs := by
    rw [ord.records_declare v, List.getElem?_append] at hs
    split at hs
    · exact ord.home hs
    · rename_i ge
      obtain ⟨lt, e⟩ := List.getElem?_eq_some_iff.1 hs
      simp only [List.length_singleton] at lt
      have e' : i = t.size := by simp only [size]; omega
      simp only [List.getElem_singleton] at e
      subst e e'
      rfl
  addresses := by
    rw [ord.addresses_declare v]
    refine List.nodup_append.2 ⟨ord.addresses, List.nodup_singleton _, ?_⟩
    intro a mem b hb e
    rw [e, List.mem_singleton.1 hb] at mem
    exact ord.placed.fresh mem
  declarations := by
    rw [ord.declarations_declare v, List.map_append]
    refine List.nodup_append.2 ⟨ord.declarations, List.nodup_singleton _, ?_⟩
    intro d mem d' hd e
    rw [e, List.mem_singleton.1 hd] at mem
    exact not_mem_of_variableIn_none new mem

/-! ### Changing a text -/

/-- A record with a new text, provided that it holds the variable at the address. -/
def withText (address : Address) (text : Text) (s : Symbol) : Symbol :=
  match s.entry with
  | .variable v => if s.address = address then { s with entry := .variable { v with text } } else s
  | .function _ => s

/-- All records are given the new text, but only one takes it. -/
lemma records_setText (t : Table) (address : Address) (text : Text) :
    (t.setText address text).records = t.records.map (withText address text) :=
  rfl

/-- A new text leaves the address as it is. -/
@[simp] lemma withText_address (address : Address) (text : Text) (s : Symbol) :
    (withText address text s).address = s.address := by
  obtain ⟨a, v | f⟩ := s
  · by_cases h : a = address <;> simp [withText, h]
  · rfl

/-- A new text changes no function. -/
@[simp] lemma withText_asFunction (address : Address) (text : Text) (s : Symbol) :
    (withText address text s).asFunction = s.asFunction := by
  obtain ⟨a, v | f⟩ := s
  · by_cases h : a = address <;> simp [withText, Symbol.asFunction, h]
  · rfl

/-- A new text changes the variable at its address, and only the text of it. -/
@[simp] lemma withText_asVariable (address : Address) (text : Text) (s : Symbol) :
    (withText address text s).asVariable = s.asVariable.map fun (a, v) =>
      if a = address then (a, { v with text }) else (a, v) := by
  obtain ⟨a, v | f⟩ := s
  · by_cases h : a = address <;> simp [withText, Symbol.asVariable, h]
  · rfl

/-- A new text adds no address and takes none away. -/
@[simp] lemma addresses_setText (t : Table) (address : Address) (text : Text) :
    (t.setText address text).addresses = t.addresses := by
  simp only [addresses, records_setText, List.map_map]
  exact List.map_congr_left fun s _ => withText_address address text s

/-- A new text changes the variable at its address and no other. -/
lemma variableList_setText (t : Table) (address : Address) (text : Text) :
    (t.setText address text).variableList =
      t.variableList.map fun (a, v) => if a = address then (a, { v with text }) else (a, v) := by
  simp only [variableList, records_setText, List.filterMap_map, List.map_filterMap]
  exact List.filterMap_congr fun s _ => withText_asVariable address text s

/-- A new text declares nothing. -/
@[simp] lemma declarations_setText (t : Table) (address : Address) (text : Text) :
    (t.setText address text).declarations = t.declarations := by
  simp only [declarations, variableList_setText, List.map_map]
  refine List.map_congr_left fun (a, v) _ => ?_
  by_cases h : a = address <;> simp [h]

/-- A new text changes no functions of the table. -/
@[simp] lemma functions_setText (t : Table) (address : Address) (text : Text) :
    (t.setText address text).functions = t.functions := by
  simp only [functions, records_setText, List.filterMap_map]
  exact List.filterMap_congr fun s _ => withText_asFunction address text s

/-- A new text does not change what is called by a name. -/
@[simp] lemma function_setText (t : Table) (address : Address) (text name : Text) :
    (t.setText address text).function? name = t.function? name := by
  have e : (fun s : Symbol => s.address == .named name) ∘ withText address text =
      fun s => s.address == .named name := by
    funext s
    simp
  simp only [function?, lookup, records_setText, List.find?_map, e]
  cases t.records.find? fun s => s.address == .named name <;> simp

/-- A table stays in order when the text of a variable changes. -/
lemma Ordered.setText (ord : t.Ordered) (address : Address) (text : Text) :
    (t.setText address text).Ordered where
  home i s hs := by
    rw [records_setText, List.getElem?_map, Option.map_eq_some_iff] at hs
    obtain ⟨⟨a, v | f⟩, hs, rfl⟩ := hs
    · have home := ord.home hs
      by_cases h : a = address <;> simpa [withText, homeOf, h] using home
    · exact ord.home hs
  addresses := by simpa using ord.addresses
  declarations := by simpa using ord.declarations

/-! ### Defining a function -/

/-- A definition takes the place of an earlier one of its name, or comes last. -/
lemma define_cases (t : Table) (f : Function) :
    (t.define f).records = t.records.map (fun s =>
        if s.address = .named f.name then ⟨.named f.name, .function f⟩ else s) ∨
      (t.define f).records = t.records ++ [⟨.named f.name, .function f⟩] ∧
        t.lookup (.named f.name) = none := by
  unfold define register put freshAddress
  simp only
  split
  · exact .inl rfl
  · rename_i h
    exact .inr ⟨rfl, by simpa using h⟩

/-- A definition keeps all addresses or adds its own, which was not there. -/
lemma addresses_define_cases (t : Table) (f : Function) :
    (t.define f).addresses = t.addresses ∨
      (t.define f).addresses = t.addresses ++ [.named f.name] ∧ .named f.name ∉ t.addresses := by
  have e := addresses_put t ⟨.named f.name, .function f⟩
  by_cases known : .named f.name ∈ t.addresses
  · exact .inl (e.trans (if_pos known))
  · exact .inr ⟨e.trans (if_neg known), known⟩

/-- The addresses that were there come first after a function is put into the table. -/
lemma addresses_define (t : Table) (f : Function) : t.addresses <+: (t.define f).addresses := by
  rcases addresses_define_cases t f with e | ⟨e, _⟩
  · exact e ▸ List.prefix_refl _
  · exact e ▸ List.prefix_append _ _

/-- A definition does not touch the variables: none of them has a name as address. -/
lemma Ordered.variableList_define (ord : t.Ordered) (f : Function) :
    (t.define f).variableList = t.variableList := by
  rcases define_cases t f with e | ⟨e, _⟩
  · simp only [variableList, e, List.filterMap_map]
    refine List.filterMap_congr fun s hs => ?_
    simp only [Function.comp]
    split
    · -- the record that is replaced has a name as address, so it is that of a function
      rename_i h
      obtain ⟨i, hi⟩ := List.getElem?_of_mem hs
      have home := ord.home hi
      obtain ⟨a, v | g⟩ := s
      · simp only [homeOf] at home h
        cases home.symm.trans h
      · rfl
    · rfl
  · simp [variableList, e, List.filterMap_append, Symbol.asVariable]

/-- A function declares no variable. -/
lemma Ordered.declarations_define (ord : t.Ordered) (f : Function) :
    (t.define f).declarations = t.declarations := by
  rw [Table.declarations, ord.variableList_define f, Table.declarations]

/-- Behind a definition, a function is the new one or was there before. -/
lemma functions_define {f g} (h : g ∈ (t.define f).functions) : g = f ∨ g ∈ t.functions := by
  obtain ⟨s, hs, e⟩ := List.mem_filterMap.1 h
  have new : s = ⟨.named f.name, .function f⟩ ∨ s ∈ t.records := by
    rcases define_cases t f with er | ⟨er, _⟩
    · rw [er] at hs
      obtain ⟨s', hs', rfl⟩ := List.mem_map.1 hs
      split
      · exact .inl rfl
      · exact .inr hs'
    · rw [er] at hs
      rcases List.mem_append.1 hs with hs | hs
      · exact .inr hs
      · exact .inl (List.mem_singleton.1 hs)
  rcases new with rfl | hs
  · cases e
    exact .inl rfl
  · exact .inr (List.mem_filterMap.2 ⟨s, hs, e⟩)

/-- A table stays in order when a function is put into it. -/
lemma Ordered.define (ord : t.Ordered) (f : Function) : (t.define f).Ordered where
  home i s hs := by
    rcases define_cases t f with e | ⟨e, _⟩
    · rw [e, List.getElem?_map, Option.map_eq_some_iff] at hs
      obtain ⟨s', hs', rfl⟩ := hs
      split
      · rfl
      · exact ord.home hs'
    · rw [e, List.getElem?_append] at hs
      split at hs
      · exact ord.home hs
      · obtain ⟨_, e⟩ := List.getElem?_eq_some_iff.1 hs
        rw [List.getElem_singleton] at e
        subst e
        rfl
  addresses := by
    rcases addresses_define_cases t f with e | ⟨e, new⟩
    · exact e ▸ ord.addresses
    · rw [e]
      refine List.nodup_append.2 ⟨ord.addresses, List.nodup_singleton _, ?_⟩
      intro a mem b hb e
      exact new (List.mem_singleton.1 hb ▸ e ▸ mem)
  declarations := by
    rw [ord.declarations_define f]
    exact ord.declarations

end Sigil.Table
