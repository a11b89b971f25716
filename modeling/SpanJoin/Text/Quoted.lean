import SpanJoin.Text.Extending
import SpanJoin.Text.Unprintable

/-!
# Quoted text

The quoted form of a text stands between double quotes. A double quote and a backslash get a
backslash; line feed, carriage return, tab and the zero character have letters of their own; any
other character that is unprintable or extends a grapheme is written by its code point in
hexadecimal between braces. Every other character stands for itself.
-/

namespace SpanJoin.Text

/-- How one character is written between the quotes. -/
def escapeChar (c : Char) : List Char :=
  match c with
  | '"' => ['\\', '"']
  | '\\' => ['\\', '\\']
  | '\n' => ['\\', 'n']
  | '\r' => ['\\', 'r']
  | '\t' => ['\\', 't']
  | '\x00' => ['\\', '0']
  | c =>
    if isExtending c || isUnprintable c then
      ['\\', 'u', '\x7b'] ++ Nat.toDigits 16 c.toNat ++ ['\x7d']
    else [c]

/-- The text between double quotes, with escapes. -/
def quote (s : String) : String :=
  String.ofList ('"' :: s.toList.flatMap escapeChar ++ ['"'])

end SpanJoin.Text
