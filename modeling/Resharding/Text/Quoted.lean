import Resharding.Text.Unprintable

/-!
Texts in quotation marks.

A quotation mark or backslash is written behind a backslash, the line feed, carriage return,
tabulator and null by a letter behind one, and every other unprintable character by its code in
braces.
-/

namespace Resharding.Text

/-- How one character stands inside quotation marks. -/
def quotedChar (c : Char) : String :=
  match c with
  | '"' => "\\\""
  | '\\' => "\\\\"
  | '\n' => "\\n"
  | '\r' => "\\r"
  | '\t' => "\\t"
  | '\x00' => "\\0"
  | c =>
    if isUnprintable c then "\\u\x7b" ++ String.ofList (Nat.toDigits 16 c.toNat) ++ "\x7d"
    else c.toString

/-- The text in quotation marks. -/
def quoted (s : String) : String := "\"" ++ String.join (s.toList.map quotedChar) ++ "\""

end Resharding.Text
