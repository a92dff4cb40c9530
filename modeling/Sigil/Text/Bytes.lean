import Sigil.Text.Basic

/-!
# Byte positions

Positions inside a text are counted in bytes of its UTF-8 form. Such a position may fall between two
code points, inside one, or behind the end, so cutting a text at a position can fail.
-/

namespace Sigil

/-- A range of bytes, from `start` up to and without `stop`. -/
structure Span where
  start : Nat
  stop : Nat
deriving DecidableEq, Repr

namespace Text

/-- The number of bytes a text takes. -/
def byteLength (t : Text) : Nat :=
  t.foldr (fun c n => c.utf8Size + n) 0

/-- Cuts a text after its first `n` bytes. There is no result if the text is shorter or if a code
point covers the position. -/
def splitAtByte : Nat → Text → Option (Text × Text)
  | 0, t => some ([], t)
  | _ + 1, [] => none
  | n + 1, c :: rest =>
    if c.utf8Size ≤ n + 1 then
      (splitAtByte (n + 1 - c.utf8Size) rest).map fun (before, after) => (c :: before, after)
    else
      none

/-- The part of a text that a span covers, if the span is in order, within the text and between
code points at both ends. -/
def slice (span : Span) (t : Text) : Option Text :=
  if span.start ≤ span.stop then do
    let (_, after) ← splitAtByte span.start t
    let (inside, _) ← splitAtByte (span.stop - span.start) after
    return inside
  else
    none

end Text

end Sigil
