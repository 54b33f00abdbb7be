/-
# Quoted text

A text between double quotes as messages show it: quotes and backslashes are
escaped, the common controls have short escapes, and any other character that
would not show is written by its code point.

Key definitions: `quoted`.
-/
import ModuleGraph.Text.Invisible

namespace ModuleGraph.Text

/-- A character within quotes. -/
def escaped (c : Char) : List Char :=
  if c == '"' then ['\\', '"']
  else if c == '\\' then ['\\', '\\']
  else if c == '\n' then ['\\', 'n']
  else if c == '\r' then ['\\', 'r']
  else if c == '\t' then ['\\', 't']
  else if c == '\x00' then ['\\', '0']
  else if isInvisible c then "\\u\x7b".toList ++ Nat.toDigits 16 c.toNat ++ ['\x7d']
  else [c]

def quoted (s : String) : String := String.ofList ('"' :: s.toList.flatMap escaped ++ ['"'])

end ModuleGraph.Text
