import QuickFix.Data.Record
import QuickFix.Data.Uri
import QuickFix.Fix.Create

/-!
# The command that creates a class

A client sends the command with its arguments as JSON. They say where the name stands, what it is and
what kind of class is wanted; written again they read back as the same arguments.
-/

namespace QuickFix

/-- A stretch of a text, by positions. -/
structure Range where
  start : Position
  stop : Position
  deriving DecidableEq, Repr

namespace Json

/-- A position. -/
def asPosition : Json → Except Mismatch Position :=
  asRecord "Position" [
    .required "line" asWord fun p n => { p with line := n },
    .required "character" asWord fun p n => { p with column := n }] ⟨0, 0⟩

/-- A range. -/
def asRange : Json → Except Mismatch Range :=
  asRecord "Range" [
    .required "start" asPosition fun r p => { r with start := p },
    .required "end" asPosition fun r p => { r with stop := p }] ⟨⟨0, 0⟩, ⟨0, 0⟩⟩

/-- A URI reference. -/
def asUri (j : Json) : Except Mismatch Uri := do
  (Uri.parse (← j.asText)).mapError fun e => .other e.message

end Json

/-- A position as data. -/
def Position.toJson (p : Position) : Json :=
  .object [("line", .nat p.line), ("character", .nat p.column)]

/-- A range as data. -/
def Range.toJson (r : Range) : Json :=
  .object [("start", r.start.toJson), ("end", r.stop.toJson)]

namespace Fix

/-- The arguments of the command. -/
structure CommandArgs where
  /-- The document with the name. -/
  uri : Uri
  range : Range
  name : Text
  kind : ClassKind
  addConstructor : Bool
  deriving DecidableEq, Repr

namespace CommandArgs

/-- Name of the command. -/
def commandName : Text := "nova.createClass"

/-- Arguments from data. -/
def ofJson : Json → Except Mismatch CommandArgs :=
  Json.asRecord "CreateClassCommandArgs" [
    .required "uri" Json.asUri fun a u => { a with uri := u },
    .required "range" Json.asRange fun a r => { a with range := r },
    .required "name" Json.asText fun a t => { a with name := t },
    .optional "kind" Json.asClassKind fun a k => { a with kind := k },
    .optional "createConstructor" Json.asBool fun a b => { a with addConstructor := b }]
    ⟨⟨[]⟩, ⟨⟨0, 0⟩, ⟨0, 0⟩⟩, [], .plain, false⟩

/-- Arguments as data. -/
def toJson (a : CommandArgs) : Json := .object [
  ("uri", .text a.uri.text), ("range", a.range.toJson), ("name", .text a.name),
  ("kind", .text a.kind.name), ("createConstructor", .bool a.addConstructor)]

/-- The reference that the command is for, once the document is known as a file. -/
def reference (a : CommandArgs) (file : FileId) : Reference := ⟨a.name, a.kind, file⟩

end CommandArgs

end Fix

end QuickFix
