import QuickFix.Text.Ranges
import QuickFix.Text.Basic

/-!
# Identifiers

An identifier starts with a character of `XID_Start`, `_` or `$`, and goes on with characters of
`XID_Continue`, `_` or `$`, as version 18 of Unicode has them. Every character that may start one
may go on one (`isIdentContinue_of_isIdentStart`).
-/

namespace QuickFix.Text

/-- May the character start an identifier? -/
def isIdentStart (c : Char) : Bool :=
  c == '_' || c == '$' || c.isAlpha || (0x80 ≤ c.toNat &&
    (inRanges identStartRanges c.toNat || inRanges newIdentStartRanges c.toNat))

/-- May the character stand in an identifier after its start? -/
def isIdentContinue (c : Char) : Bool :=
  isIdentStart c || c.isDigit || (0x80 ≤ c.toNat &&
    (inRanges identExtraRanges c.toNat || inRanges newIdentExtraRanges c.toNat))

theorem isIdentContinue_of_isIdentStart {c : Char} (h : isIdentStart c = true) :
    isIdentContinue c = true := by
  simp [isIdentContinue, h]

/-- Is the character a letter or a number of version 17 of Unicode? Two symbols that may start
identifiers are not. -/
def isAlphanumeric (c : Char) : Bool :=
  c.isAlphanum || (0x80 ≤ c.toNat && c.toNat != 0x2118 && c.toNat != 0x212e &&
    (inRanges identStartRanges c.toNat || inRanges alphanumericExtraRanges c.toNat))

/-- Is the text one identifier? -/
def isIdentifier : Text → Bool
  | [] => false
  | c :: t => isIdentStart c && t.all isIdentContinue

end QuickFix.Text
