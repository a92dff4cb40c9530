/-!
# Texts

A text is the list of its code points. This module has the operations that scripts rely on: what
counts as blank, trimming, cutting a text around a mark, and reading a comma-separated list.
-/

namespace Sigil

/-- A text: its code points in reading order. -/
abbrev Text := List Char

namespace Text

/-- The code points with the Unicode property White_Space. -/
def isBlank (c : Char) : Bool :=
  let n := c.toNat
  (0x9 ≤ n && n ≤ 0xD) || n == 0x20 || n == 0x85 || n == 0xA0 || n == 0x1680
    || (0x2000 ≤ n && n ≤ 0x200A) || n == 0x2028 || n == 0x2029 || n == 0x202F || n == 0x205F
    || n == 0x3000

/-- Drops the blanks at the end of a text. -/
def trimEnd (t : Text) : Text :=
  (t.reverse.dropWhile isBlank).reverse

/-- Drops the blanks at both ends of a text. -/
def trim (t : Text) : Text :=
  trimEnd (t.dropWhile isBlank)

/-- Cuts a text around the first occurrence of `mark`: what stands before it and what follows. -/
def cut (mark : Text) : Text → Option (Text × Text)
  | [] => if mark.isEmpty then some ([], []) else none
  | c :: rest =>
    if mark.isPrefixOf (c :: rest) then
      some ([], (c :: rest).drop mark.length)
    else
      (cut mark rest).map fun (before, after) => (c :: before, after)

/-- The stretches of a text between occurrences of the character `sep`; there is always one more of
them than of separators. -/
def split (sep : Char) : Text → List Text
  | [] => [[]]
  | c :: rest =>
    if c = sep then
      [] :: split sep rest
    else
      match split sep rest with
      | [] => [[c]]
      | first :: others => (c :: first) :: others

/-- The items of a comma-separated list: each is trimmed and blank ones are left out. -/
def items (t : Text) : List Text :=
  ((split ',' t).map trim).filter fun item => !item.isEmpty

/-- Lays a text flush right in a column of the given width. -/
def padLeft (width : Nat) (t : Text) : Text :=
  List.replicate (width - t.length) ' ' ++ t

/-- Lays a text flush left in a column of the given width. -/
def padRight (width : Nat) (t : Text) : Text :=
  t ++ List.replicate (width - t.length) ' '

/-- Compares two texts by code points, the first difference deciding. -/
def compare : Text → Text → Ordering
  | [], [] => .eq
  | [], _ :: _ => .lt
  | _ :: _, [] => .gt
  | a :: s, b :: t => (Ord.compare a.toNat b.toNat).then (compare s t)

end Text

end Sigil
