import StackMachine.Text.Column
import StackMachine.Text.Unprintable

/-! # Quoted text

Text between quotation marks, as constants are shown in a listing: a quotation mark and a
backslash are escaped, five control characters have letters, and other characters without a
shape are given by number.
-/

namespace StackMachine.Text

def escaped (c : Char) : String :=
  if c = Char.ofNat 0 then "\\0"
  else if c = '\t' then "\\t"
  else if c = '\r' then "\\r"
  else if c = '\n' then "\\n"
  else if c = '"' then "\\\""
  else if c = '\\' then "\\\\"
  else if isUnprintable c then "\\u\x7b" ++ hex 1 c.toNat ++ "\x7d"
  else c.toString

def quoted (s : String) : String :=
  "\"" ++ String.join (s.toList.map escaped) ++ "\""

end StackMachine.Text
