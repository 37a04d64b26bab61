import QuickFix.Log.Event
import QuickFix.Name
import QuickFix.Symbol
import QuickFix.Text.Position

/-!
# Hosts

The quick fix asks its host for everything outside of itself: the project, dialogs, templates, edits
and editors. A `Call` is one such question, `Call.Reply` the type of its answers, and a `Host` answers
every call from a world of its own.
-/

namespace QuickFix.Fix

/-! ## Identifiers -/

/-- A file of the project. -/
structure FileId where
  number : Nat
  deriving DecidableEq, Repr

/-- A directory of the project. -/
structure DirectoryId where
  number : Nat
  deriving DecidableEq, Repr

/-- A module of the project. -/
structure ModuleId where
  number : Nat
  deriving DecidableEq, Repr

/-! ## What calls are about -/

/-- Why a host could not do what it was asked to. -/
inductive HostError where
  /-- The change makes no sense in the present state of the source. -/
  | incorrectOperation (cause : Text)
  /-- Input or output failed. -/
  | io (cause : Text)
  | unknownTemplate (name : Text)
  | unknownFile (file : FileId)
  | unknownDirectory (directory : DirectoryId)
  | fileExists (name : Text)
  deriving DecidableEq, Repr

/-- Wording of an error. -/
def HostError.message : HostError → Text
  | .incorrectOperation cause => cause
  | .io cause => cause
  | .unknownTemplate name => "unknown file template " ++ Text.tick name
  | .unknownFile file => "unknown file FileId(" ++ Text.ofNat file.number ++ ")"
  | .unknownDirectory directory =>
    "unknown directory DirectoryId(" ++ Text.ofNat directory.number ++ ")"
  | .fileExists name => "file " ++ Text.tick name ++ " already exists"

/-- A class as the host knows it. -/
structure ClassInfo where
  file : FileId
  name : Text
  kind : ClassKind
  /-- Absent if the class has no stable qualified name. -/
  qualified? : Option QualifiedName
  /-- Absent if the class has no place for modifiers. -/
  visibility? : Option Visibility
  span : Span
  deriving DecidableEq, Repr

/-- What the dialog starts with. -/
structure DialogRequest where
  title : Text
  className : Text
  package : PackageName
  module? : Option ModuleId
  kind : ClassKind
  addConstructor : Bool
  deriving DecidableEq, Repr

/-- What the user confirmed in the dialog. -/
structure CreationRequest where
  directory? : Option DirectoryId
  package : PackageName
  className : Text
  module? : Option ModuleId
  addConstructor : Bool
  deriving DecidableEq, Repr

/-- A file that is to be made from a template. -/
structure NewFile where
  className : Text
  fileName : Text
  /-- Name of the template. -/
  template : Text
  package : PackageName
  deriving DecidableEq, Repr

/-- An error that is shown to the user. -/
structure ErrorNotice where
  message : Text
  title : Text
  deriving DecidableEq, Repr

/-! ## Calls -/

/-- A question to the host. -/
inductive Call where
  | moduleOf (file : FileId)
  /-- Ask the user where the class goes. -/
  | askUser (request : DialogRequest)
  | createFile (directory : DirectoryId) (file : NewFile)
  /-- The classes that a file declares, in order. -/
  | classesOf (file : FileId)
  /-- Can the class be used in a file? -/
  | isAccessible (c : ClassInfo) (origin : FileId)
  | setVisibility (c : ClassInfo) (v : Visibility)
  | addConstructor (c : ClassInfo)
  /-- Where a file is stored, if anywhere. -/
  | pathOf (file : FileId)
  | addImport (file : FileId) (name : QualifiedName)
  | openEditor (path : Text) (offset : Nat) (focus : Bool)
  | showError (notice : ErrorNotice)
  deriving DecidableEq, Repr

/-- The type of the answers to a call. -/
@[reducible] def Call.Reply : Call → Type
  | .moduleOf _ => Option ModuleId
  | .askUser _ => Option CreationRequest
  | .createFile _ _ => Except HostError FileId
  | .classesOf _ => Except HostError (List ClassInfo)
  | .isAccessible _ _ => Bool
  | .setVisibility _ _ => Except HostError Unit
  | .addConstructor _ => Except HostError Unit
  | .pathOf _ => Option Text
  | .addImport _ _ => Except HostError Unit
  | .openEditor _ _ _ => Except HostError Unit
  | .showError _ => Unit

/-- The answer to a call, with the world after it and what was logged meanwhile. -/
structure Response (σ : Type) (c : Call) where
  reply : c.Reply
  world : σ
  events : List Log.Event

/-- How calls are answered; `isWriting` says whether a write action is open. -/
def Host (σ : Type) := (c : Call) → (isWriting : Bool) → σ → Response σ c

/-! ## Files as the user sees them -/

/-- The part of a file that is source code. -/
inductive Root where
  /-- A compilation unit of a package. -/
  | compilationUnit (file : FileId) (package : PackageName)
  /-- A script, which belongs to no package. -/
  | script (file : FileId)
  deriving DecidableEq, Repr

/-- The file that imports go to. -/
def Root.file : Root → FileId
  | .compilationUnit file _ => file
  | .script file => file

/-- The package of the code; scripts count to the default package. -/
def Root.package : Root → PackageName
  | .compilationUnit _ package => package
  | .script _ => .default

/-- The file in which the user called for the fix. -/
structure Snapshot where
  file : FileId
  root? : Option Root
  deriving DecidableEq, Repr

end QuickFix.Fix
