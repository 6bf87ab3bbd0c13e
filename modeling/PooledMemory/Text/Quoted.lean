import PooledMemory.Fault
import PooledMemory.Text.Hidden

namespace PooledMemory.Text

/-- A character in a quoted text. What would not show is written by its code point. -/
def escaped (c : Char) : String :=
  match c with
  | '"' => "\\\""
  | '\\' => "\\\\"
  | '\n' => "\\n"
  | '\r' => "\\r"
  | '\t' => "\\t"
  | '\x00' => "\\0"
  | c => if isVisible c then String.singleton c else "\\u\x7b" ++ hexDigits c.toNat ++ "\x7d"

/-- A text in quotation marks. -/
def quoted (s : String) : String := "\"" ++ String.join (s.toList.map escaped) ++ "\""

end PooledMemory.Text
