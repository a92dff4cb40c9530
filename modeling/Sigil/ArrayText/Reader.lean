import Sigil.ArrayText.Figure
import Sigil.Text.Bytes

/-!
# Reading array texts

An array text is a list in square brackets of strings, numbers, truth values and such lists. It is
read one character at a time, so the first problem met from the left is the one reported. The
state of the reader holds the lists that are still open; a list may be nested up to 127 deep.
-/

namespace Sigil.ArrayText

/-- Where the reader stands inside a string. -/
inductive Escape where
  /-- Outside an escape. -/
  | none
  /-- Behind a backslash. -/
  | slash
  /-- Inside the digits of a numbered escape; `high` is a leading surrogate that went before. -/
  | digits (high : Option Nat) (gathered : Text)
  /-- Behind a leading surrogate, which needs a second escape. -/
  | paired (high : Nat)
  /-- Behind the backslash of this second escape. -/
  | pairedSlash (high : Nat)
deriving DecidableEq, Repr

/-- A string that is being read. -/
structure Quotation where
  chars : Text := []
  escape : Escape := .none
deriving DecidableEq, Repr

namespace Quotation

/-- Adds a character and leaves the escape. -/
def push (q : Quotation) (c : Char) : Quotation :=
  { chars := q.chars ++ [c] }

/-- The value of a hexadecimal digit. -/
def hexDigit? (c : Char) : Option Nat :=
  if c.isDigit then
    some (c.toNat - '0'.toNat)
  else if 'a' ≤ c ∧ c ≤ 'f' then
    some (c.toNat - 'a'.toNat + 10)
  else if 'A' ≤ c ∧ c ≤ 'F' then
    some (c.toNat - 'A'.toNat + 10)
  else
    none

/-- The value of a run of hexadecimal digits. -/
def hexValue? (digits : Text) : Option Nat :=
  digits.foldlM (fun n c => (hexDigit? c).map (16 * n + ·)) 0

/-- Ends a numbered escape whose digits are all there. -/
def closeDigits (q : Quotation) (high : Option Nat) (digits : Text) : Except Problem Quotation :=
  match hexValue? digits with
  | none => .error .invalidEscape
  | some n =>
    match high with
    | some h =>
      if 0xDC00 ≤ n ∧ n ≤ 0xDFFF then
        .ok (q.push (Char.ofNat (0x10000 + (h - 0xD800) * 0x400 + (n - 0xDC00))))
      else
        .error .loneSurrogate
    | none =>
      if 0xDC00 ≤ n ∧ n ≤ 0xDFFF then
        .error .loneSurrogate
      else if 0xD800 ≤ n ∧ n ≤ 0xDBFF then
        .ok { q with escape := .paired n }
      else
        .ok (q.push (Char.ofNat n))

/-- Reads one more digit of a numbered escape, which takes four bytes whatever they are. -/
def pushDigit (q : Quotation) (high : Option Nat) (digits : Text) (c : Char) :
    Except Problem Quotation :=
  let digits := digits ++ [c]
  if Text.byteLength digits < 4 then
    .ok { q with escape := .digits high digits }
  else
    q.closeDigits high digits

/-- The character that a short escape stands for. -/
def shortEscape? (c : Char) : Option Char :=
  match c with
  | '"' => some '"'
  | '\\' => some '\\'
  | '/' => some '/'
  | 'b' => some '\x08'
  | 'f' => some '\x0c'
  | 'n' => some '\n'
  | 'r' => some '\r'
  | 't' => some '\t'
  | _ => none

/-- Reads one more character. The string ends at a character for which the result is `none`. -/
def advance (q : Quotation) (c : Char) : Except Problem (Option Quotation) :=
  match q.escape with
  | .none =>
    if c = '"' then
      .ok none
    else if c = '\\' then
      .ok (some { q with escape := .slash })
    else if c.toNat < 0x20 then
      .error .controlCharacter
    else
      .ok (some (q.push c))
  | .slash =>
    if c = 'u' then
      .ok (some { q with escape := .digits none [] })
    else
      match shortEscape? c with
      | some meant => .ok (some (q.push meant))
      | none => .error .invalidEscape
  | .digits high digits => (q.pushDigit high digits c).map some
  | .paired high =>
    if c = '\\' then .ok (some { q with escape := .pairedSlash high })
    else .error .brokenSurrogatePair
  | .pairedSlash high =>
    if c = 'u' then .ok (some { q with escape := .digits (some high) [] })
    else .error .brokenSurrogatePair

end Quotation

/-- Where the reader of an array text stands. -/
inductive Place where
  /-- Before everything. -/
  | start
  /-- Behind an opening bracket. -/
  | opened
  /-- Behind a comma. -/
  | comma
  /-- Inside a string. -/
  | string (q : Quotation)
  /-- Inside a number. -/
  | figure (f : Figure)
  /-- Inside a word, of which some letters are still to come. -/
  | word (left : Text) (found : Found)
  /-- Behind an item. -/
  | item
  /-- Behind the outermost list. -/
  | finished (items : List Value)

/-- The state of reading an array text. -/
structure Reader where
  place : Place := .start
  /-- The items of the open lists, the innermost list and the latest item first. -/
  lists : List (List Value) := []

namespace Reader

/-- The depth at which lists are refused. -/
def maxDepth : Nat := 128

/-- The blanks that may stand between the parts of an array text. -/
def isSpace (c : Char) : Bool :=
  c == ' ' || c == '\n' || c == '\t' || c == '\r'

/-- Takes up a value that was read in full. -/
def accept (r : Reader) (found : Found) : Except Problem Reader :=
  match r.lists with
  | [] => .error (.unwanted found .list)
  | items :: outer =>
    match found.value? with
    | some value => .ok { place := .item, lists := (value :: items) :: outer }
    | none => .error (.unwanted found .item)

/-- Closes the innermost list. -/
def close (r : Reader) : Except Problem Reader :=
  match r.lists with
  | [] => .error .expectedValue
  | [items] => .ok { place := .finished items.reverse }
  | items :: outer :: others =>
    .ok { place := .item, lists := (.array items.reverse :: outer) :: others }

/-- Opens a list. -/
def openList (r : Reader) : Except Problem Reader :=
  if r.lists.length + 1 < maxDepth then
    .ok { place := .opened, lists := [] :: r.lists }
  else
    .error .tooDeep

/-- Refuses a map, which no array text holds. -/
def refuseMap (r : Reader) : Except Problem Reader :=
  if r.lists.isEmpty then
    .error (.unwanted .map .list)
  else if r.lists.length + 1 < maxDepth then
    .error (.unwanted .map .item)
  else
    .error .tooDeep

/-- Starts a value with its first character. -/
def begin (r : Reader) (c : Char) : Except Problem Reader :=
  if c = '"' then
    .ok { r with place := .string {} }
  else if c = '[' then
    r.openList
  else if c = '{' then
    r.refuseMap
  else if c = 'n' then
    .ok { r with place := .word ['u', 'l', 'l'] .null }
  else if c = 't' then
    .ok { r with place := .word ['r', 'u', 'e'] (.bool true) }
  else if c = 'f' then
    .ok { r with place := .word ['a', 'l', 's', 'e'] (.bool false) }
  else
    match Figure.start? c with
    | some f => .ok { r with place := .figure f }
    | none => .error .expectedValue

/-- Reads a character behind an item. -/
def separate (r : Reader) (c : Char) : Except Problem Reader :=
  if isSpace c then
    .ok r
  else if c = ',' then
    .ok { r with place := .comma }
  else if c = ']' then
    r.close
  else
    .error .expectedCommaOrEnd

/-- Reads one more letter of a word, whose last one completes it. -/
def spell (r : Reader) (found : Found) (c : Char) : Text → Except Problem Reader
  | [] => .error .expectedWord
  | [last] => if c = last then r.accept found else .error .expectedWord
  | letter :: left =>
    if c = letter then .ok { r with place := .word left found } else .error .expectedWord

/-- Reads one character. -/
def step (r : Reader) (c : Char) : Except Problem Reader :=
  match r.place with
  | .start => if isSpace c then .ok r else r.begin c
  | .opened => if isSpace c then .ok r else if c = ']' then r.close else r.begin c
  | .comma =>
    if isSpace c then .ok r else if c = ']' then .error .trailingComma else r.begin c
  | .string q => do
    match ← q.advance c with
    | some q => .ok { r with place := .string q }
    | none => r.accept (.string q.chars)
  | .figure f => do
    match ← f.advance c with
    | some f => .ok { r with place := .figure f }
    | none =>
      let r ← r.accept (← f.found)
      r.separate c
  | .word left found => r.spell found c left
  | .item => r.separate c
  | .finished _ => if isSpace c then .ok r else .error .trailingCharacters

/-- Ends the text. -/
def finish (r : Reader) : Except Problem (List Value) :=
  match r.place with
  | .start | .comma | .word .. => .error .endInValue
  | .opened | .item => .error .endInList
  | .string _ => .error .endInString
  | .figure f =>
    if f.complete then do
      discard <| r.accept (← f.found)
      .error .endInList
    else
      .error .endInValue
  | .finished items => .ok items

end Reader

/-- Reads an array text, blanks around it not counting. -/
def parse (t : Text) : Except Problem (List Value) := do
  let r ← (Text.trim t).foldlM Reader.step {}
  r.finish

end Sigil.ArrayText
