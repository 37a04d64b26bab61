import QuickFix.Data.Json
import QuickFix.Log.Level
import QuickFix.Text.Quoted

/-!
# Log events

An event has a level, the target that it comes from, a message and fields. It is written as a line of
text or as a line of JSON, here without the time.
-/

namespace QuickFix.Log

/-- The value of a field. -/
inductive FieldValue where
  /-- Written as it is. -/
  | plain (t : Text)
  /-- Written between quotes. -/
  | quoted (t : Text)
  deriving DecidableEq, Repr

/-- A character of a message. The controls that a terminal obeys are written by number. -/
def messageChar (c : Char) : Text :=
  let digits := Text.hex c.toNat
  if ['\x07', '\x08', '\x0c', '\x1b', '\x7f'].elem c then
    "\\x" ++ List.replicate (2 - digits.length) '0' ++ digits
  else if 0x80 ≤ c.toNat && c.toNat ≤ 0x9f then "\\u\x7b" ++ digits ++ "\x7d"
  else [c]

/-- A message as it is written in a line of text. -/
def messageText (t : Text) : Text := t.flatMap messageChar

/-- A field of an event; one without a name is a second message. -/
structure EventField where
  name? : Option Text
  value : FieldValue
  deriving DecidableEq, Repr

namespace EventField

/-- A field that is written as it is. -/
def plain (name value : Text) : EventField := ⟨some name, .plain value⟩

/-- A field with a number. -/
def nat (name : Text) (n : Nat) : EventField := ⟨some name, .plain (Text.ofNat n)⟩

/-- A field between quotes. -/
def quoted (name value : Text) : EventField := ⟨some name, .quoted value⟩

/-- A second message. -/
def message (value : Text) : EventField := ⟨none, .plain value⟩

/-- A field as text. -/
def render (f : EventField) : Text :=
  let value := match f.value with
    | .plain t => t
    | .quoted t => Text.quote t
  match f.name? with
  | some name => name ++ "=" ++ value
  | none => messageText value

end EventField

/-- Something worth a line in the log. -/
structure Event where
  level : Level
  target : Text
  message : Text
  fields : List EventField
  deriving DecidableEq, Repr

namespace Event

/-- The event as a line of text: the level in five columns, the target, the message and the
fields. -/
def render (e : Event) : Text :=
  let label := e.level.label
  List.replicate (5 - label.length) ' ' ++ label ++ " " ++ e.target ++ ": " ++
    Text.join " " (messageText e.message :: e.fields.map EventField.render)

/-- The event as a JSON object. -/
def toJson (e : Event) : Json := .object [
  ("level", .text e.level.label),
  ("fields", .object (("message", .text e.message) ::
    e.fields.filterMap fun f => f.name?.map fun n => (n, .text (match f.value with
      | .plain t => t
      | .quoted t => t)))),
  ("target", .text e.target)]

end Event

end QuickFix.Log
