import QuickFix.Number.Decimal
import QuickFix.Number.Width

/-!
# Fields in directives

A directive may ask for a field by its name, and for its value too. A value that spells a truth value or
a number is meant as that, however it is spelled. Any other is a pattern for the value as it is shown.
Which texts are patterns is not settled here: whoever reads a field says what is wrong with one, if
anything is.
-/

namespace QuickFix.Log

/-- What the value of a field has to be. -/
inductive ValueMatch where
  | bool (b : Bool)
  /-- A natural number of 64 bits. -/
  | natural (n : Nat)
  /-- Any other integer of 64 bits, or zero with a minus. -/
  | integer (n : Int)
  | number (x : Double)
  /-- Anything that fits a pattern when it is shown. -/
  | pattern (t : Text)
  deriving DecidableEq, Repr

namespace ValueMatch

/-- The truth value or the number that a text spells. -/
def plain? (t : Text) : Option ValueMatch :=
  if t = "true" then some (.bool true)
  else if t = "false" then some (.bool false)
  else (((Decimal.natural? t).filter fun n : Nat => fitsUnsigned64 n).map natural).or <|
    (((Decimal.integer? t).filter fitsSigned64).map integer).or <| (Double.parse? t).map number

/-- The value that a text spells, or the pattern that it is. -/
def parse (patternProblem? : Text → Option Text) (t : Text) : Except Text ValueMatch :=
  match plain? t, patternProblem? t with
  | some v, _ => .ok v
  | none, none => .ok (.pattern t)
  | none, some problem => .error problem

/-- Written as in settings, a whole number without a point. -/
def render : ValueMatch → Text
  | .bool b => if b then "true" else "false"
  | .natural n => Text.ofNat n
  | .integer n => Text.ofInt n
  | .number x =>
    let t := x.render Double.plain
    if Text.endsWith t ".0" then t.take (t.length - 2) else t
  | .pattern t => t

end ValueMatch

/-- A field that a span or an event must have. -/
structure FieldMatch where
  name : Text
  value? : Option ValueMatch
  deriving DecidableEq, Repr

namespace FieldMatch

/-- A name, or a name and a value with an equals sign between them; a second one and what stands behind
it count for nothing. -/
def parse (patternProblem? : Text → Option Text) (t : Text) : Except Text FieldMatch :=
  match t.splitOn '=' with
  | name :: value :: _ => do return ⟨name, some (← ValueMatch.parse patternProblem? value)⟩
  | _ => .ok ⟨t, none⟩

/-- Written as in settings. -/
def render (f : FieldMatch) : Text := f.name ++ f.value?.elim [] fun v => '=' :: v.render

end FieldMatch

end QuickFix.Log
