import Lox.Text
import Lox.Text.Unprintable

/-!
# Quoted text

A text between double quotes on one line of visible characters. Quotes and backslashes are marked
by a backslash, the common controls have a letter, and every other unprintable character is written
by its code point.
-/

namespace Lox.Text

/-- A character as it stands between the quotes. -/
def escape (c : Char) : Text :=
  match c with
  | '"' => ['\\', '"']
  | '\\' => ['\\', '\\']
  | '\n' => ['\\', 'n']
  | '\r' => ['\\', 'r']
  | '\t' => ['\\', 't']
  | '\x00' => ['\\', '0']
  | c =>
    if isUnprintable c then ['\\', 'u', '\x7b'] ++ Nat.toDigits 16 c.toNat ++ ['\x7d'] else [c]

def quote (t : Text) : Text := '"' :: t.flatMap escape ++ ['"']

end Lox.Text
