import QuickFix.Config.Settings
import QuickFix.Data.Mismatch
import QuickFix.Text.Utf8
import QuickFix.Toml.Reader

/-!
# Loading settings

Settings are read from a TOML document. A table gives the fields of a record by name and in any
order, an array gives them by position; what it does not give stays at its default. Names that no
record knows do not stop the reading: `Settings.load` gives their paths beside the settings.
-/

namespace QuickFix

namespace Toml

/-- What a value is, for a mismatch. -/
def found : Toml → Found
  | .text t => .text t
  | .integer n => .integer n
  | .float x => .fraction (x.render Double.plain)
  | .bool b => .bool b
  | .moment => .object
  | .list _ => .list
  | .table _ => .object

/-- A string. -/
def asText : Toml → Except Mismatch Text
  | .text t => .ok t
  | v => .error (.type v.found "a string")

/-- A truth value. -/
def asBool : Toml → Except Mismatch Bool
  | .bool b => .ok b
  | v => .error (.type v.found "a boolean")

/-- A number of things. -/
def asCount : Toml → Except Mismatch Nat
  | .integer n => if 0 ≤ n then .ok n.toNat else .error (.value (.integer n) "usize")
  | v => .error (.type v.found "usize")

/-- What may stand with a word that is given as the single entry of a table: nothing. -/
def checkEmpty : Toml → Except Mismatch Unit
  | .list [] => .ok ()
  | .list _ => .error (.other "expected empty array")
  | .table [] => .ok ()
  | .table _ => .error (.other "expected empty table")
  | v => .error (.other ("expected table, found " ++ v.typeName))

/-- One of the `allowed` words: a string, or the name of the single entry of a table. -/
def asChoice (allowed : List Text) (v : Toml) : Except Mismatch Text :=
  let check (word : Text) : Except Mismatch Text :=
    if allowed.elem word then .ok word else .error (.unknown word allowed)
  match v with
  | .text word => check word
  | .table [] => .error (.other "wanted exactly 1 element, found 0 elements")
  | .table [(word, inner)] => do
    let word ← check word
    checkEmpty inner
    return word
  | .table _ => .error (.other "wanted exactly 1 element, more than 1 element")
  | _ => .error .notAChoice

/-- A policy for opening up classes. -/
def asPolicy (v : Toml) : Except Mismatch VisibilityPolicy := do
  let word ← asChoice (VisibilityPolicy.all.map VisibilityPolicy.name) v
  return (VisibilityPolicy.all.find? fun p => p.name = word).getD .widest

end Toml

namespace Settings

/-! ## Records -/

/-- The way to a value of a document: names and numbers, the nearest first. -/
abbrev Path := List Text

/-- A value that has been read, and the paths of the names that nothing knows. -/
structure Reading (α : Type) where
  value : α
  unknown : List Path

/-- A field of a record: how a value at a path is read as a change of the record. Where names that
nothing knows do not matter, `put` reads it. -/
structure Field (α : Type) where
  name : Text
  read : Path → Toml → Except Mismatch (Reading (α → α))
  put : Toml → Except Mismatch (α → α)

/-- A field that is one value. -/
def Field.leaf {α β : Type} (name : Text) (as : Toml → Except Mismatch β) (set : α → β → α) :
    Field α where
  name := name
  read _ v := (as v).map fun b => ⟨fun a => set a b, []⟩
  put v := (as v).map fun b a => set a b

/-- Name of the entry that a date or time has where a table is asked for. -/
def momentEntry : Text := "$__toml_private_datetime"

section

variable {α : Type} (name : Text) (fields : List (Field α)) (start : α)

/-- Read one entry of a table. -/
def readEntry (path : Path) (entry : Text × Toml) : Except Mismatch (Reading (α → α)) :=
  match fields.find? fun f => f.name = entry.1 with
  | none => .ok ⟨id, [entry.1 :: path]⟩
  | some f => f.read (entry.1 :: path) entry.2

/-- The record that changes lead to, one after the other, with all names that nothing knows. -/
def gather (rs : List (Reading (α → α))) : Reading α :=
  ⟨rs.foldl (fun a r => r.value a) start, rs.flatMap Reading.unknown⟩

/-- Read a record called `name`, whose values are those of `start` where none is given. -/
def readRecord (path : Path) (v : Toml) : Except Mismatch (Reading α) :=
  match v with
  | .table entries => (entries.mapM (readEntry fields path)).map (gather start)
  | .moment => .ok ⟨start, [momentEntry :: path]⟩
  | .list items =>
    let rs : Except Mismatch (List (Reading (α → α))) :=
      (fields.zip items).zipIdx.mapM fun ((f, v), i) => f.read (Text.ofNat i :: path) v
    rs.map (gather start)
  | v => .error (.type v.found ("struct " ++ name))

/-- Read one entry of a table; a name that nothing knows changes nothing. -/
def putEntry (entry : Text × Toml) : Except Mismatch (α → α) :=
  match fields.find? fun f => f.name = entry.1 with
  | none => .ok id
  | some f => f.put entry.2

/-- Read a record like `readRecord`, and pass over names that nothing knows. -/
def putRecord (v : Toml) : Except Mismatch α :=
  let apply (changes : List (α → α)) : α := changes.foldl (fun a change => change a) start
  match v with
  | .table entries => (entries.mapM (putEntry fields)).map apply
  | .moment => .ok start
  | .list items =>
    let changes : Except Mismatch (List (α → α)) := (fields.zip items).mapM fun (f, v) => f.put v
    changes.map apply
  | v => .error (.type v.found ("struct " ++ name))

end

/-- A field that is a record. -/
def Field.record {α β : Type} (name typeName : Text) (fields : List (Field β)) (start : β)
    (set : α → β → α) : Field α where
  name := name
  read path v :=
    (readRecord typeName fields start path v).map fun r => ⟨fun a => set a r.value, r.unknown⟩
  put v := (putRecord typeName fields start v).map fun b a => set a b

/-- The file templates. -/
def templateFields : List (Field Templates) := [
  .leaf "class" Toml.asText fun s v => { s with plain := v },
  .leaf "interface" Toml.asText fun s v => { s with interface := v },
  .leaf "enum" Toml.asText fun s v => { s with enum := v },
  .leaf "annotation" Toml.asText fun s v => { s with annotationType := v }]

/-- The settings of the quick fix. -/
def createFields : List (Field CreateSettings) := [
  .leaf "file_extension" Toml.asText fun s v => { s with extension := v },
  .record "templates" "TemplatesConfig" templateFields .default fun s v => { s with templates := v },
  .leaf "visibility" Toml.asPolicy fun s v => { s with policy := v }]

/-- The settings of logging. -/
def logFields : List (Field LogSettings) := [
  .leaf "level" Toml.asText fun s v => { s with level := v },
  .leaf "json" Toml.asBool fun s v => { s with json := v },
  .leaf "stderr" Toml.asBool fun s v => { s with stderr := v },
  .leaf "buffer_lines" Toml.asCount fun s v => { s with bufferLines := v }]

/-- All settings. -/
def fields : List (Field Settings) := [
  .record "create_class" "CreateClassConfig" createFields .default
    fun s v => { s with createClass := v },
  .record "logging" "LoggingConfig" logFields .default fun s v => { s with logging := v }]

/-! ## Documents -/

/-- Why no settings were loaded. -/
inductive LoadError where
  /-- There is no such file. -/
  | missing (path : Text)
  /-- The file cannot exist, since a part of its path is too long. -/
  | nameTooLong (path : Text)
  /-- The path holds a character that no path can hold. -/
  | nulInPath (path : Text)
  /-- The path leads to a directory. -/
  | directory (path : Text)
  /-- The file does not hold text. -/
  | notText (path : Text)
  /-- The text is not TOML. -/
  | notToml
  /-- A value is not what its setting asks for. -/
  | mismatch (m : Mismatch)
  deriving DecidableEq, Repr

/-- Wording of a failure to read a file. -/
def unreadable (path cause : Text) : Text := "failed to read config file " ++ path ++ ": " ++ cause

/-- Wording of an error. -/
def LoadError.message : LoadError → Text
  | .missing path => unreadable path "No such file or directory (os error 2)"
  | .nameTooLong path => unreadable path "File name too long (os error 36)"
  | .nulInPath path => unreadable path "file name contained an unexpected NUL byte"
  | .directory path => unreadable path "Is a directory (os error 21)"
  | .notText path => unreadable path "stream did not contain valid UTF-8"
  | .notToml => "failed to parse toml config"
  | .mismatch m => "failed to parse toml config: " ++ m.message

/-- A path as it is shown: its steps with dots between them, no dot before the first. -/
def showPath (p : Path) : Text := (Text.join "." p.reverse).dropWhile (· = '.')

/-- Texts in the order of their characters, each once. -/
def sortOnce (ts : List Text) : List Text :=
  (ts.mergeSort fun a b => !decide (b < a)).eraseReps

/-- What was noticed while loading settings. -/
structure Diagnostics where
  /-- Paths of the names that are not known, in order. -/
  unknownKeys : List Text
  problems : List Problem
  deriving DecidableEq, Repr

/-- Was nothing noticed? -/
def Diagnostics.isEmpty (d : Diagnostics) : Bool := d.unknownKeys.isEmpty && d.problems.isEmpty

/-- The settings that the root table of a document gives. -/
def ofEntries (entries : List (Text × Toml)) : Except Mismatch (Reading Settings) :=
  readRecord "NovaConfig" fields .default [] (.table entries)

/-- Settings from TOML text, with what was noticed about them. -/
def load (t : Text) (read : Log.Directive.Reader := .lenient) :
    Except LoadError (Settings × Diagnostics) :=
  match Toml.read? t with
  | none => .error .notToml
  | some entries =>
    match ofEntries entries with
    | .error m => .error (.mismatch m)
    | .ok r => .ok (r.value, ⟨sortOnce (r.unknown.map showPath), r.value.problems read⟩)

/-- Settings from TOML text. -/
def loadSilently (t : Text) : Except LoadError Settings :=
  match Toml.read? t with
  | none => .error .notToml
  | some entries =>
    match putRecord "NovaConfig" fields .default (.table entries) with
    | .error m => .error (.mismatch m)
    | .ok s => .ok s

/-- Most bytes that a name in a path can have. -/
def maxName : Nat := 255

/-- Most bytes that a path can have. -/
def maxPath : Nat := 4095

/-- Why the file at `path` cannot be read if its first name, should that not be too long, is in no
directory. -/
def absence (path : Text) : LoadError :=
  let names := (path.splitOn '/').filter fun n => n ≠ [] ∧ n ≠ ['.'] ∧ n ≠ ['.', '.']
  if path.elem '\x00' then .nulInPath path
  else if maxPath < Text.bytes path then .nameTooLong path
  else match names with
    | [] => if path.isEmpty then .missing path else .directory path
    | name :: _ => if maxName < Text.bytes name then .nameTooLong path else .missing path

/-- Settings from the content of the file at `path`; `none` if there is no such file. -/
def loadFile (path : Text) (content? : Option (List UInt8)) : Except LoadError Settings :=
  match content? with
  | none => .error (absence path)
  | some bytes =>
    match Text.decode? bytes with
    | none => .error (.notText path)
    | some t => loadSilently t

end Settings

end QuickFix
