/-
Quoted text in messages.

A message that names an unusable key or tag quotes it, so that blanks at the ends, line breaks
and invisible characters can be told apart on a terminal. A quote, a backslash and the usual
control characters have short escapes; every other character that is not shown as it is appears
by its code point.
-/
import BlockDiagram.Text.Numeral
import BlockDiagram.Text.Shown

set_option autoImplicit false

namespace BlockDiagram

/-- One character inside quotes. -/
def quoteChar (c : Char) : String :=
  match c with
  | '"' => "\\\""
  | '\\' => "\\\\"
  | '\n' => "\\n"
  | '\r' => "\\r"
  | '\t' => "\\t"
  | '\x00' => "\\0"
  | _ => if isShown c then c.toString else "\\u\x7b" ++ hexadecimal c.toNat ++ "\x7d"

/-- A text in double quotes. An apostrophe needs no escape between them. -/
def quoted (s : String) : String :=
  "\"" ++ String.join (s.toList.map quoteChar) ++ "\""

end BlockDiagram
