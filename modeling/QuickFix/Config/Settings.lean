import QuickFix.Data.Json
import QuickFix.Log.Filter
import QuickFix.Symbol
import QuickFix.Text.Quoted

/-!
# Settings

The settings of the quick fix and of logging. Every setting has a default. `Settings.problems` lists
the values that are of the right type but make no sense. Where directives of a log filter are read, their
reader may be chosen.
-/

namespace QuickFix

/-- How far a class is opened up that cannot be used where it is needed. -/
inductive VisibilityPolicy where
  /-- All the way. -/
  | widest
  /-- Up to the first level at which it can be used. -/
  | minimal
  deriving DecidableEq, Repr

namespace VisibilityPolicy

/-- All policies. -/
def all : List VisibilityPolicy := [.widest, .minimal]

/-- Name of the policy in settings. -/
def name : VisibilityPolicy → Text
  | .widest => "public"
  | .minimal => "minimal"

end VisibilityPolicy

/-- Names of the file templates for each kind of class. -/
structure Templates where
  plain : Text
  interface : Text
  enum : Text
  annotationType : Text
  deriving DecidableEq, Repr

namespace Templates

/-- The names that are used when none are given. -/
def default : Templates where
  plain := "GroovyClass.groovy"
  interface := "GroovyInterface.groovy"
  enum := "GroovyEnum.groovy"
  annotationType := "GroovyAnnotation.groovy"

/-- The template for a kind of class. -/
def get (t : Templates) : ClassKind → Text
  | .plain => t.plain
  | .interface => t.interface
  | .enum => t.enum
  | .annotationType => t.annotationType

/-- The names as data. -/
def toJson (t : Templates) : Json :=
  .object (ClassKind.all.map fun k => (k.name, .text (t.get k)))

end Templates

/-- Settings of the quick fix. -/
structure CreateSettings where
  /-- Extension of new files. -/
  extension : Text
  templates : Templates
  policy : VisibilityPolicy
  deriving DecidableEq, Repr

namespace CreateSettings

/-- The settings that are used when none are given. -/
def default : CreateSettings := ⟨"groovy", .default, .widest⟩

/-- The extension without blanks around it and dots before it. -/
def cleanExtension (s : CreateSettings) : Text := (Text.trim s.extension).dropWhile (· = '.')

/-- Name of the file for a class. -/
def fileName (s : CreateSettings) (className : Text) : Text :=
  if s.cleanExtension.isEmpty then className else className ++ "." ++ s.cleanExtension

/-- The settings as data. -/
def toJson (s : CreateSettings) : Json := .object [
  ("file_extension", .text s.extension),
  ("templates", s.templates.toJson),
  ("visibility", .text s.policy.name)]

end CreateSettings

/-- Settings of logging. -/
structure LogSettings where
  /-- A level, or directives of a filter. -/
  level : Text
  /-- Are lines written as JSON? -/
  json : Bool
  /-- Are lines written to the error stream too? -/
  stderr : Bool
  /-- Number of lines that are kept. -/
  bufferLines : Nat
  deriving DecidableEq, Repr

namespace LogSettings

/-- The settings that are used when none are given. -/
def default : LogSettings := ⟨"info", false, true, 2000⟩

/-- Other words for bounds. -/
def synonyms : List (Text × Text) := [("warning", "warn"), ("none", "off")]

/-- The directives that the level stands for: a word for a bound in its usual form, `info` for
nothing, and anything else as it is, without blanks around it. -/
def directives (s : LogSettings) : Text :=
  let t := Text.trim s.level
  let word := Text.lower t
  if t.isEmpty then "info"
  else if (Log.Bound.all.map Log.Bound.name).elem word then word
  else (synonyms.lookup word).getD t

/-- What is wrong with the level, if anything is. -/
def levelProblem? (s : LogSettings) (read : Log.Directive.Reader := .lenient) : Option Text :=
  match Log.Filter.parse s.directives read with
  | .ok _ => none
  | .error e => some ("invalid level " ++ Text.tick s.directives ++ ": " ++ e.message)

/-- The filter in force. Directives from the environment are added to those of the settings; if both
together are malformed those of the environment count alone, and without any that can be read, `info`
does. -/
def filter (s : LogSettings) (environment? : Option Text)
    (read : Log.Directive.Reader := .lenient) : Log.Filter :=
  let fallback := Log.Filter.ofDirectives [⟨none, none, none, some .info⟩]
  let attempts := match (environment?.map Text.trim).filter fun e => !e.isEmpty with
    | some e => [s.directives ++ "," ++ e, e]
    | none => [s.directives]
  (attempts.findSome? fun t => (Log.Filter.parse t read).toOption).getD fallback

/-- The settings as data. -/
def toJson (s : LogSettings) : Json := .object [
  ("level", .text s.level),
  ("json", .bool s.json),
  ("stderr", .bool s.stderr),
  ("buffer_lines", .nat s.bufferLines)]

end LogSettings

/-- All settings. -/
structure Settings where
  createClass : CreateSettings
  logging : LogSettings
  deriving DecidableEq, Repr

/-- A setting with a value that makes no sense. -/
structure Problem where
  /-- Where the setting stands. -/
  path : Text
  message : Text
  deriving DecidableEq, Repr

namespace Settings

/-- The settings that are used when none are given. -/
def default : Settings := ⟨.default, .default⟩

/-- The values that make no sense, in the order of the settings. -/
def problems (s : Settings) (read : Log.Directive.Reader := .lenient) : List Problem :=
  (if s.createClass.cleanExtension.isEmpty then
    [⟨"create_class.file_extension", "must not be empty"⟩] else []) ++
  ((ClassKind.all.filter fun k => (Text.trim (s.createClass.templates.get k)).isEmpty).map fun k =>
    ⟨"create_class.templates." ++ k.name, "template name must not be empty"⟩) ++
  ((s.logging.levelProblem? read).map fun m => ⟨"logging.level", m⟩).toList

/-- The settings as data. -/
def toJson (s : Settings) : Json :=
  .object [("create_class", s.createClass.toJson), ("logging", s.logging.toJson)]

end Settings

end QuickFix
