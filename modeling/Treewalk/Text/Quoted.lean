import Treewalk.Text.Hidden

/-! # Quoted text

How messages show the contents of a string literal: between double quotes, on
one line, and with every hidden character spelled out.
-/

namespace Treewalk.Text

/-- A character's code point in the form `\u{e9}`. -/
def codePoint (c : Char) : String :=
  r"\u{" ++ String.ofList (Nat.toDigits 16 c.toNat) ++ r"}"

/-- One character of quoted text. -/
def quoteChar (c : Char) : String :=
  match c with
  | '\x00' => "\\0"
  | '\t' => "\\t"
  | '\r' => "\\r"
  | '\n' => "\\n"
  | '\\' => "\\\\"
  | '"' => "\\\""
  | c => if isHidden c then codePoint c else c.toString

/-- Text as messages quote it. -/
def quoted (s : String) : String :=
  "\"" ++ String.join (s.toList.map quoteChar) ++ "\""

end Treewalk.Text
