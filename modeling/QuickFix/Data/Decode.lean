import QuickFix.Data.Json
import QuickFix.Data.Mismatch
import QuickFix.Number.Width
import QuickFix.Symbol

/-!
# Reading JSON values

Readers of the types that JSON data holds. A choice of a word is a string, or an object whose single
member has the word as its name and null as its value; a record is an object, or a list of its fields
in order.
-/

namespace QuickFix.Json

/-- What a value is, for a mismatch. -/
def found : Json → Found
  | .null => .null
  | .bool b => .bool b
  | .integer n => .integer n
  | .float x => .fraction (x.render Double.compact)
  | .text t => .text t
  | .list _ => .list
  | .object _ => .object

/-- A string. -/
def asText : Json → Except Mismatch Text
  | .text t => .ok t
  | j => .error (.type j.found "a string")

/-- A truth value. -/
def asBool : Json → Except Mismatch Bool
  | .bool b => .ok b
  | j => .error (.type j.found "a boolean")

/-- A natural number of 32 bits. -/
def asWord : Json → Except Mismatch Nat
  | .integer n => if fitsUnsigned32 n then .ok n.toNat else .error (.value (.integer n) "u32")
  | j => .error (.type j.found "u32")

/-- An integer of 32 bits with a sign. -/
def asSignedWord : Json → Except Mismatch Int
  | .integer n => if fitsSigned32 n then .ok n else .error (.value (.integer n) "i32")
  | j => .error (.type j.found "i32")

/-- A list of values that are read alike. -/
def asList {α : Type} (as : Json → Except Mismatch α) : Json → Except Mismatch (List α)
  | .list items => items.mapM as
  | j => .error (.type j.found "a sequence")

/-- One of the `allowed` words. -/
def asChoice (allowed : List Text) (j : Json) : Except Mismatch Text :=
  let check (word : Text) : Except Mismatch Text :=
    if allowed.elem word then .ok word else .error (.unknown word allowed)
  match j with
  | .text word => check word
  | .object [(word, value)] => do
    let word ← check word
    match value with
    | .null => return word
    | value => .error (.type value.found "unit")
  | .object _ => .error (.value .object "map with a single key")
  | j => .error (.type j.found "string or map")

/-- A kind of class. -/
def asClassKind (j : Json) : Except Mismatch ClassKind := do
  let word ← asChoice (ClassKind.all.map ClassKind.name) j
  return (ClassKind.all.find? fun k => k.name = word).getD .plain

/-- An access level. -/
def asVisibility (j : Json) : Except Mismatch Visibility := do
  let word ← asChoice (Visibility.all.map Visibility.name) j
  return (Visibility.all.find? fun v => v.name = word).getD .priv

end QuickFix.Json
