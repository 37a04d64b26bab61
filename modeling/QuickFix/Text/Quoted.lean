import QuickFix.Text.Ranges
import QuickFix.Text.Basic

/-!
# Quoted text

A text between double quotes on one line: the quote, the backslash and the common controls have short
escapes, and characters without a visible form of their own are written by number.
-/

namespace QuickFix.Text

/-- Lowercase hexadecimal digits of a number. -/
def hex (n : Nat) : Text := Nat.toDigits 16 n

/-- Has the character no visible form of its own? -/
def isUnprintable (c : Char) : Bool :=
  c.toNat < 0x20 || c.toNat == 0x7f || (0x80 ≤ c.toNat && inRanges unprintableRanges c.toNat)

/-- A character as it stands between quotes. -/
def escape (c : Char) : Text :=
  match c with
  | '\x00' => ['\\', '0']
  | '\t' => ['\\', 't']
  | '\n' => ['\\', 'n']
  | '\r' => ['\\', 'r']
  | '"' => ['\\', '"']
  | '\\' => ['\\', '\\']
  | c => if isUnprintable c then "\\u\x7b" ++ hex c.toNat ++ "\x7d" else [c]

/-- The text between quotes. -/
def quote (t : Text) : Text := '"' :: t.flatMap escape ++ ['"']

/-- The text between backquotes, as it is. -/
def tick (t : Text) : Text := '\x60' :: t ++ ['\x60']

end QuickFix.Text
