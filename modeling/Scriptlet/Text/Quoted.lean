import Scriptlet.Text.Visible

/-!
# Quoted texts

Messages show a piece of source in double quotes. A quote and a backslash are
written after a backslash, the common control characters by a letter, and every
other character that would not show by its code point.
-/

namespace Scriptlet.Text

/-- The code point of a character in hexadecimal, between braces. -/
def codeEscape (c : Char) : List Char :=
  "\\u\x7b".toList ++ Nat.toDigits 16 c.toNat ++ ['\x7d']

/-- How one character is written inside quotes. -/
def quoteChar (c : Char) : List Char :=
  if c = '\x00' then ['\\', '0']
  else if c = '\t' then ['\\', 't']
  else if c = '\r' then ['\\', 'r']
  else if c = '\n' then ['\\', 'n']
  else if c = '\\' then ['\\', '\\']
  else if c = '"' then ['\\', '"']
  else if isVisible c then [c]
  else codeEscape c

/-- A text between double quotes. -/
def quote (s : String) : String :=
  String.ofList ('"' :: s.toList.flatMap quoteChar ++ ['"'])

end Scriptlet.Text
