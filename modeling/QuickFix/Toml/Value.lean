import QuickFix.Number.Decimal

/-!
# TOML values

A value as a TOML document gives it. Tables are lists of entries in document order. Dates and times
are only recognised: nothing here reads their fields.
-/

namespace QuickFix

/-- A TOML value. -/
inductive Toml where
  | text (t : Text)
  | integer (n : Int)
  | float (x : Double)
  | bool (b : Bool)
  | moment
  | list (items : List Toml)
  | table (entries : List (Text × Toml))
  deriving Repr, Inhabited

/-- What a scalar is called in messages. -/
def Toml.typeName : Toml → Text
  | .text _ => "string"
  | .integer _ => "integer"
  | .float _ => "float"
  | .bool _ => "boolean"
  | .moment => "datetime"
  | .list _ => "array"
  | .table _ => "table"

end QuickFix
