import Sigil.Text.Basic

/-!
# Occurrences of one text in another

Occurrences are found from left to right and do not overlap: the search goes on behind the one
found. Counting and replacing walk over the same occurrences. Both are meant for a text that is not
empty.
-/

namespace Sigil.Text

/-- Walks over a text looking for `old`; the first `skip` characters belong to an occurrence that
was already met. Every occurrence is given to `hit`, every other character to `miss`. -/
def walkOccurrences {α : Type} (old : Text) (hit : α → α) (miss : Char → α → α) (stop : α) :
    Nat → Text → α
  | _, [] => stop
  | skip + 1, _ :: rest => walkOccurrences old hit miss stop skip rest
  | 0, c :: rest =>
    if old.isPrefixOf (c :: rest) then
      hit (walkOccurrences old hit miss stop (old.length - 1) rest)
    else
      miss c (walkOccurrences old hit miss stop 0 rest)

/-- The number of occurrences of `old`. -/
def occurrences (old t : Text) : Nat :=
  walkOccurrences old (· + 1) (fun _ n => n) 0 0 t

/-- Puts `new` in the place of every occurrence of `old`. -/
def replace (old new t : Text) : Text :=
  walkOccurrences old (new ++ ·) (· :: ·) [] 0 t

end Sigil.Text
