import QuickFix.Text.Basic

/-!
# Blank characters

The characters with the Unicode property `White_Space`, and trimming by them. The smaller ASCII set
that separates tokens is `isAsciiBlank`; it lies within the larger one (`isBlank_of_isAsciiBlank`).
-/

namespace QuickFix.Text

/-- Unicode `White_Space`. -/
def isBlank (c : Char) : Bool :=
  let n := c.toNat
  (9 ≤ n && n ≤ 13) || n == 0x20 || n == 0x85 || n == 0xa0 || n == 0x1680 ||
    (0x2000 ≤ n && n ≤ 0x200a) || n == 0x2028 || n == 0x2029 || n == 0x202f || n == 0x205f ||
    n == 0x3000

/-- Space, tab, line feed, form feed and carriage return; the vertical tab is not one of them. -/
def isAsciiBlank (c : Char) : Bool :=
  c == ' ' || c == '\t' || c == '\n' || c == '\x0c' || c == '\r'

theorem isBlank_of_isAsciiBlank {c : Char} (h : isAsciiBlank c = true) : isBlank c = true := by
  simp only [isAsciiBlank, Bool.or_eq_true, beq_iff_eq] at h
  rcases h with (((rfl | rfl) | rfl) | rfl) | rfl <;> rfl

/-- The text without leading blanks. -/
def trimStart (t : Text) : Text := t.dropWhile isBlank

/-- The text without trailing blanks. -/
def trimEnd (t : Text) : Text := dropEndWhile isBlank t

/-- The text without blanks at either end. -/
def trim (t : Text) : Text := trimEnd (trimStart t)

/-- The characters up to the first blank. -/
def firstWord (t : Text) : Text := t.takeWhile fun c => !isBlank c

end QuickFix.Text
