import Sigil.Text.Basic
import Sigil.Text.Visible

/-!
# Quotations

Two ways of quoting a text. `quote` is for people: characters without a shape of their own are
spelled by their number in hexadecimal digits. `encode` is for data: it is the string of array
texts, which escapes only what such a string cannot hold.
-/

namespace Sigil.Text

/-- A character as it stands in a quotation for people. -/
def quoteChar (c : Char) : Text :=
  match c with
  | '\x00' => ['\\', '0']
  | '\t' => ['\\', 't']
  | '\r' => ['\\', 'r']
  | '\n' => ['\\', 'n']
  | '\\' => ['\\', '\\']
  | '"' => ['\\', '"']
  | _ => if isVisible c then [c] else ['\\', 'u', '{'] ++ Nat.toDigits 16 c.toNat ++ ['}']

/-- A text in quotation marks, for people. -/
def quote (t : Text) : Text :=
  '"' :: t.flatMap quoteChar ++ ['"']

/-- A character as it stands in a string of an array text. -/
def encodeChar (c : Char) : Text :=
  if c = '"' then ['\\', '"']
  else if c = '\\' then ['\\', '\\']
  else if c = '\x08' then ['\\', 'b']
  else if c = '\x0c' then ['\\', 'f']
  else if c = '\n' then ['\\', 'n']
  else if c = '\r' then ['\\', 'r']
  else if c = '\t' then ['\\', 't']
  else if c.toNat < 0x20 then
    ['\\', 'u', '0', '0', Nat.digitChar (c.toNat / 16), Nat.digitChar (c.toNat % 16)]
  else [c]

/-- A text as a string of an array text. -/
def encode (t : Text) : Text :=
  '"' :: t.flatMap encodeChar ++ ['"']

end Sigil.Text
