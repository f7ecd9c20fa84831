import Vectorial.Text.Hidden

/-!
# Quoted text

A text between double quotes. The quote, the backslash and the common controls are
written with a backslash, and any other hidden character by its number between braces.

## Main definitions

* `Text.escape`: how one character is written between quotes;
* `Text.quote`: the quoted form of a text.
-/

namespace Vectorial.Text

/-- One character as it stands between quotes. -/
def escape (c : Char) : List Char :=
  if c = '\x00' then ['\\', '0']
  else if c = '\t' then ['\\', 't']
  else if c = '\n' then ['\\', 'n']
  else if c = '\r' then ['\\', 'r']
  else if c = '"' then ['\\', '"']
  else if c = '\\' then ['\\', '\\']
  else if isHidden c then ['\\', 'u', '\x7b'] ++ Nat.toDigits 16 c.toNat ++ ['\x7d']
  else [c]

/-- The text between quotes. -/
def quote (text : String) : String :=
  String.ofList ('"' :: text.toList.flatMap escape ++ ['"'])

end Vectorial.Text
