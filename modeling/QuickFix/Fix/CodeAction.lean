import QuickFix.Fix.Command

/-!
# Code actions

Diagnostics about names that no class has are offered the command that creates one, if they meet the
selection. Two diagnostics about one name give one action, for the first of them.
-/

namespace QuickFix.Fix

/-- What a diagnostic is about, in the words or the numbers of its source. -/
inductive DiagnosticCode where
  | number (n : Int)
  | text (t : Text)
  deriving DecidableEq, Repr

/-- A code as data. -/
def DiagnosticCode.toJson : DiagnosticCode → Json
  | .number n => .integer n
  | .text t => .text t

/-- A code from data. -/
def DiagnosticCode.ofJson : Json → Except Mismatch DiagnosticCode
  | .text t => .ok (.text t)
  | j => j.asSignedWord.map .number

/-- A place that has to do with a diagnostic. -/
structure RelatedPlace where
  uri : Uri
  range : Range
  message : Text
  deriving DecidableEq, Repr

namespace RelatedPlace

/-- A place as data. -/
def toJson (p : RelatedPlace) : Json := .object [
  ("location", .object [("uri", .text p.uri.text), ("range", p.range.toJson)]),
  ("message", .text p.message)]

/-- A place from data. -/
def ofJson : Json → Except Mismatch RelatedPlace :=
  let location (p : RelatedPlace) : Json → Except Mismatch RelatedPlace := Json.asRecord "Location" [
    .required "uri" Json.asUri fun p u => { p with uri := u },
    .required "range" Json.asRange fun p r => { p with range := r }] p
  Json.asRecord "DiagnosticRelatedInformation" [
    ⟨"location", false, fun j p => location p j⟩,
    .required "message" Json.asText fun p t => { p with message := t }]
    ⟨⟨[]⟩, ⟨⟨0, 0⟩, ⟨0, 0⟩⟩, []⟩

end RelatedPlace

/-- A diagnostic of a document. All but its range, its code and its message is only passed on. -/
structure Diagnostic where
  range : Range
  severity? : Option Int
  code? : Option DiagnosticCode
  /-- Where the code is described. -/
  description? : Option Uri
  source? : Option Text
  message : Text
  related? : Option (List RelatedPlace)
  tags? : Option (List Int)
  /-- Whatever the source of the diagnostic keeps with it. -/
  data? : Option Json
  deriving Repr

namespace Diagnostic

/-- A diagnostic from data. -/
def ofJson : Json → Except Mismatch Diagnostic :=
  let description (j : Json) : Except Mismatch Uri := Json.asRecord "CodeDescription" [
    .required "href" Json.asUri fun _ u => u] ⟨[]⟩ j
  Json.asRecord "Diagnostic" [
    .required "range" Json.asRange fun d r => { d with range := r },
    .nullable "severity" Json.asSignedWord fun d n? => { d with severity? := n? },
    .nullable "code" DiagnosticCode.ofJson fun d c? => { d with code? := c? },
    .nullable "codeDescription" description fun d u? => { d with description? := u? },
    .nullable "source" Json.asText fun d t? => { d with source? := t? },
    .required "message" Json.asText fun d t => { d with message := t },
    .nullable "relatedInformation" (Json.asList RelatedPlace.ofJson)
      fun d ps? => { d with related? := ps? },
    .nullable "tags" (Json.asList Json.asSignedWord) fun d ns? => { d with tags? := ns? },
    .nullable "data" .ok fun d j? => { d with data? := j? }]
    ⟨⟨⟨0, 0⟩, ⟨0, 0⟩⟩, none, none, none, none, [], none, none, none⟩

/-- The code of a name that no class has. -/
def unresolvedType : Text := "unresolved-type"

/-- Is it about a name that no class has? -/
def isUnresolvedType (d : Diagnostic) : Bool := d.code? = some (.text unresolvedType)

/-- The name between backquotes in the message. -/
def nameInMessage? (d : Diagnostic) : Option Text := do
  let rest ← Text.after? ("unresolved type " ++ ['\x60']) d.message
  if rest.getLast? = some '\x60' then some rest.dropLast else none

/-- A diagnostic as data; what it does not have is left out. -/
def toJson (d : Diagnostic) : Json :=
  let members : List (Text × Option Json) := [
    ("range", some d.range.toJson),
    ("severity", d.severity?.map .integer),
    ("code", d.code?.map DiagnosticCode.toJson),
    ("codeDescription", d.description?.map fun u => .object [("href", .text u.text)]),
    ("source", d.source?.map .text),
    ("message", some (.text d.message)),
    ("relatedInformation", d.related?.map fun ps => .list (ps.map RelatedPlace.toJson)),
    ("tags", d.tags?.map fun ns => .list (ns.map .integer)),
    ("data", d.data?)]
  .object (members.filterMap fun (name, value?) => value?.map fun value => (name, value))

end Diagnostic

/-- A simple name in ASCII, without the signs that join names. -/
def isSimpleName : Text → Bool
  | [] => false
  | c :: t => (c = '_' || c.isAlpha) && t.all fun c => c = '_' || c.isAlphanum

/-- Do two stretches meet? An empty one meets what holds or touches it. -/
def meets (a b : Span) : Bool :=
  if a.isEmpty then b.start ≤ a.start && a.start ≤ b.stop
  else if b.isEmpty then a.start ≤ b.start && b.start ≤ a.stop
  else a.start < b.stop && b.start < a.stop

/-- An action that is offered for a diagnostic. -/
structure CodeAction where
  args : CommandArgs
  diagnostic : Diagnostic
  deriving Repr

namespace CodeAction

/-- What the user sees. -/
def title (a : CodeAction) : Text := createText a.args.name

/-- An action as data. -/
def toJson (a : CodeAction) : Json := .object [
  ("title", .text a.title),
  ("kind", .text "quickfix"),
  ("diagnostics", .list [a.diagnostic.toJson]),
  ("command", .object [
    ("title", .text a.title),
    ("command", .text CommandArgs.commandName),
    ("arguments", .list [a.args.toJson])])]

end CodeAction

/-- The stretch of a range, if both its ends are places of the text, in order. -/
def Range.span? (r : Range) (source : Text) : Option Span := Text.span? source r.start r.stop

/-- The name that a diagnostic is about: what its range holds, or what its message says if that is
nothing. -/
def nameAt? (source : Text) (span : Span) (d : Diagnostic) : Option Text :=
  match (Text.slice? span.start span.stop source).getD [] with
  | [] => d.nameInMessage?
  | name => some name

/-- The action for a diagnostic, if it meets the selection and is about a simple name. -/
def actionFor? (source : Text) (uri : Uri) (selection : Span) (d : Diagnostic) :
    Option CodeAction := do
  let span ← if d.isUnresolvedType then Range.span? d.range source else none
  let name ← if meets span selection then nameAt? source span d else none
  if isSimpleName name then return ⟨⟨uri, d.range, name, .plain, false⟩, d⟩ else none

/-- Leave out actions whose title another has before them. -/
def distinctTitles (as : List CodeAction) : List CodeAction :=
  as.foldl (fun kept a => if kept.any fun b => b.title = a.title then kept else kept ++ [a]) []

/-- The actions for a selection of a source text. -/
def codeActions (source : Text) (uri : Uri) (selection : Range) (ds : List Diagnostic) :
    List CodeAction :=
  match Range.span? selection source with
  | none => []
  | some span => distinctTitles (ds.filterMap (actionFor? source uri span))

end QuickFix.Fix
