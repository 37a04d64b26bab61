import QuickFix.Text.Quoted

/-!
# Mismatches

Why a data value is not what was asked for, and how that is worded. Every reader of data, whatever
its format, reports a `Mismatch`.
-/

namespace QuickFix

/-- What was found in place of what was asked for. Numbers with a fraction come as text, since each
format writes them in its own way. -/
inductive Found where
  | null
  | bool (b : Bool)
  | integer (n : Int)
  | fraction (text : Text)
  | text (t : Text)
  | list
  | object
  deriving DecidableEq, Repr

/-- Wording of what was found. -/
def Found.message : Found → Text
  | .null => "null"
  | .bool b => "boolean " ++ Text.tick (if b then "true" else "false" : String)
  | .integer n => "integer " ++ Text.tick (Text.ofInt n)
  | .fraction t => "floating point " ++ Text.tick t
  | .text t => "string " ++ Text.quote t
  | .list => "sequence"
  | .object => "map"

/-- Why a value is not what was asked for. -/
inductive Mismatch where
  /-- A value of another type. -/
  | type (found : Found) (expected : Text)
  /-- A value of the right type that is not allowed. -/
  | value (found : Found) (expected : Text)
  /-- A list that is too short or too long. -/
  | length (found : Nat) (expected : Text)
  /-- A member is missing. -/
  | missing (field : Text)
  /-- A word that is not one of the allowed ones. -/
  | unknown (word : Text) (allowed : List Text)
  /-- A value that cannot be a choice of a word. -/
  | notAChoice
  /-- Another cause, in its own words. -/
  | other (message : Text)
  deriving DecidableEq, Repr

/-- A list of allowed words. -/
def oneOf : List Text → Text
  | [a] => Text.tick a
  | [a, b] => Text.tick a ++ " or " ++ Text.tick b
  | words => "one of " ++ Text.join ", " (words.map Text.tick)

/-- Wording of a mismatch. -/
def Mismatch.message : Mismatch → Text
  | .type found expected => "invalid type: " ++ found.message ++ ", expected " ++ expected
  | .value found expected => "invalid value: " ++ found.message ++ ", expected " ++ expected
  | .length found expected =>
    "invalid length " ++ Text.ofNat found ++ ", expected " ++ expected
  | .missing field => "missing field " ++ Text.tick field
  | .unknown word allowed =>
    "unknown variant " ++ Text.tick word ++ ", expected " ++ oneOf allowed
  | .notAChoice => "wanted string or table"
  | .other message => message

end QuickFix
