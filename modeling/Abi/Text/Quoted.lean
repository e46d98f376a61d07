/-
  Text between double quotes on one line, as it is shown in messages.

  The quote and the backslash get a backslash in front, tab, line feed, carriage return and NUL
  have letters, and any other character without a glyph is written by its number.
-/
import Abi.Text.Glyph

namespace Abi.Quoted

/-- The escape that stands for a number: lower-case hexadecimal digits between braces. -/
def numbered (n : Nat) : List Char :=
  "\\u\x7b".toList ++ Nat.toDigits 16 n ++ ['\x7d']

/-- The text of one character. -/
def encodeChar (c : Char) : List Char :=
  match c with
  | '"' => ['\\', '"']
  | '\\' => ['\\', '\\']
  | '\t' => ['\\', 't']
  | '\n' => ['\\', 'n']
  | '\r' => ['\\', 'r']
  | '\x00' => ['\\', '0']
  | c => if Glyph.isShown c then [c] else numbered c.toNat

/-- The text between quotes. -/
def encode (s : String) : String :=
  String.ofList ('"' :: s.toList.flatMap encodeChar ++ ['"'])

end Abi.Quoted
