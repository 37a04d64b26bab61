import QuickFix.Config.Settings
import QuickFix.Data.Schema

/-!
# The schema of settings

For editors, which check settings files against it.
-/

namespace QuickFix.Settings

/-- A schema for the names of file templates. -/
def templatesSchema : Schema :=
  .named "TemplatesConfig" (some "File template names, per class kind.")
    (.record (ClassKind.all.map fun k => (k.name, none, .text (Templates.default.get k), .text)))

/-- What a policy does. -/
def policyPurpose : VisibilityPolicy → Text
  | .widest => "Always make the class public."
  | .minimal => "Widen one level at a time and stop at the first accessible level."

/-- A schema for the policy. -/
def policySchema : Schema :=
  .named "VisibilityPolicy"
    (some "How far the \"Create class\" quick fix widens an inaccessible class.")
    (.choice (VisibilityPolicy.all.map fun p => (p.name, policyPurpose p)))

/-- A schema for the settings of the quick fix. -/
def createSchema : Schema :=
  let s := CreateSettings.default
  .named "CreateClassConfig" (some "Settings for the \"Create class\" quick fix.") (.record [
    ("file_extension", some "Extension of created files, without the leading dot.",
      .text s.extension, .text),
    ("templates", none, s.templates.toJson, templatesSchema),
    ("visibility", none, .text s.policy.name, policySchema)])

/-- A schema for the settings of logging. -/
def logSchema : Schema :=
  let s := LogSettings.default
  .named "LoggingConfig" none (.record [
    ("level", some ("Logging level for all Nova crates, or a full " ++ Text.tick "EnvFilter" ++
      " directive string."), .text s.level, .text),
    ("json", some "Emit logs in JSON format.", .bool s.json, .bool),
    ("stderr", some "Mirror logs to stderr (in addition to the in-memory buffer).",
      .bool s.stderr, .bool),
    ("buffer_lines", some "Number of log lines kept in memory for bug reports.",
      .nat s.bufferLines, .count 1)])

/-- The schema of all settings. -/
def schema : Schema := .record [
  ("create_class", none, CreateSettings.default.toJson, createSchema),
  ("logging", none, LogSettings.default.toJson, logSchema)]

/-- The schema of all settings as a document. -/
def schemaJson : Json := schema.toJson "NovaConfig"

end QuickFix.Settings
