import Sigil.Text.Basic

/-!
# Paths

A path is a text whose parts stand between slashes. Empty parts and single dots lead nowhere.
-/

namespace Sigil.Path

/-- Whether a path starts from the top of the file system. -/
def isAbsolute (path : Text) : Bool :=
  path.head? == some '/'

/-- A path continued by another; an absolute one stands by itself. -/
def join (root path : Text) : Text :=
  if isAbsolute path || root.isEmpty then
    path
  else if root.getLast? = some '/' then
    root ++ path
  else
    root ++ '/' :: path

/-- Whether a part of a path leads nowhere. -/
def isIdle (part : Text) : Bool :=
  part.isEmpty || part = ['.']

/-- The parts of a path that lead somewhere. -/
def steps (path : Text) : List Text :=
  (Text.split '/' path).filter fun part => !isIdle part

/-- The last part of a path, unless it leads upwards. -/
def fileName? (path : Text) : Option Text :=
  (steps path).getLast?.filter fun part => part != ['.', '.']

/-- The path without its last part that leads somewhere and what is idle around it. Of what is idle
at its start one part stays. -/
def parent (path : Text) : Text :=
  let parts := Text.split '/' path
  match parts.reverse.dropWhile isIdle |>.drop 1 |>.dropWhile isIdle with
  | [] => if isAbsolute path then ['/'] else if parts.head? = some ['.'] then ['.'] else []
  | above => List.intercalate ['/'] above.reverse

/-- What follows the last dot of a file name; a name that starts with its only dot has nothing. -/
def extension? (path : Text) : Option Text := do
  let name ← fileName? path
  match (Text.split '.' name).reverse with
  | [] | [_] => none
  | [_, []] => none
  | last :: _ => some last

end Sigil.Path
