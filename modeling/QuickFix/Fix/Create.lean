import QuickFix.Config.Settings
import QuickFix.Fix.Message
import QuickFix.Fix.Session

/-!
# Creating a class

The fix for a name that no class has. `invoke` asks the user where the class goes, makes a file from a
template within one write action, opens up the class as far as the place that needs it asks for, adds
a constructor and an import, and opens the new class in an editor. Failures of the template are left
as a notice for the user; other failures are logged.
-/

namespace QuickFix.Fix

/-- A name in a file that no class has. -/
structure Reference where
  name : Text
  /-- The kind of class that the place asks for. -/
  kind : ClassKind
  file : FileId
  deriving DecidableEq, Repr

/-- How the new class was shown to the user. -/
inductive Navigation where
  | opened (path : Text) (offset : Nat)
  /-- The file is stored nowhere. -/
  | skipped
  | failed
  deriving DecidableEq, Repr

/-- What was created. -/
structure Created where
  declared : ClassInfo
  /-- The level that the class was opened up to, if it had to be. -/
  widened? : Option Visibility
  constructorAdded : Bool
  /-- The import that was added, if one was. -/
  imported? : Option QualifiedName
  deriving DecidableEq, Repr

/-- What came of the fix. -/
inductive Outcome where
  /-- The fix must not run there. -/
  | notApplicable
  /-- The user gave up. -/
  | cancelled
  /-- Nothing was created; this was logged or left as a notice. -/
  | failed
  | created (c : Created) (navigation : Navigation)
  deriving DecidableEq, Repr

/-- Why nothing was created. -/
inductive Failure where
  | cancelled
  /-- The template made no class of this name. -/
  | noClass (name cause : Text)
  | host (e : HostError)
  deriving DecidableEq, Repr

/-- The fix for a reference, with the choice about a constructor that the dialog starts with. -/
structure CreateClass where
  reference : Reference
  addConstructor : Bool
  deriving DecidableEq, Repr

/-! ## Log events -/

/-- An event of the fix. -/
def event (level : Log.Level) (message : Text) (fields : List Log.EventField) : Log.Event :=
  ⟨level, "nova.ide", message, fields⟩

/-- The file was made and holds a class. -/
def createdEvent (c : ClassInfo) (template : Text) : Log.Event :=
  event .debug "created class from template"
    [.plain "class" c.name, .nat "file" c.file.number, .quoted "template" template]

/-- The class is not where it was. -/
def lostEvent (c : ClassInfo) : Log.Event :=
  event .warn "created class not found after edits; caret may be misplaced"
    [.plain "class" c.name, .nat "file" c.file.number]

/-- The import could not be added. -/
def importFailedEvent (q : QualifiedName) (e : HostError) : Log.Event :=
  event .warn "failed to import created class" [.plain "fqn" q.text, .plain "error" e.message]

/-- The template made no class. -/
def noClassEvent (name cause : Text) : Log.Event :=
  event .debug "template produced no class" [.plain "class" name, .message cause]

/-- The host failed. -/
def failedEvent (name : Text) (e : HostError) : Log.Event :=
  event .error "failed to create class" [.plain "class" name, .plain "error" e.message]

/-- The fix was called for within a write action. -/
def writingEvent (name : Text) : Log.Event :=
  event .error "create class dialog requested inside a write action" [.plain "class" name]

/-- The user chose no directory. -/
def noDirectoryEvent : Log.Event :=
  event .debug "create class dialog confirmed without a directory" []

/-- The editor could not be opened. -/
def openFailedEvent (path : Text) (e : HostError) : Log.Event :=
  event .warn "failed to open created class" [.plain "path" path, .plain "error" e.message]

/-! ## Within the write action -/

section

variable {σ : Type} (H : Host σ)

/-- A session that may fail. -/
abbrev Attempt (σ : Type) := ExceptT Failure (Session σ)

/-- Call the host, and fail if it does. -/
def attempt {α : Type} (s : Session σ (Except HostError α)) : Attempt σ α := ExceptT.mk do
  return (← s).mapError .host

/-- Log an event. -/
def logged (e : Log.Event) : Attempt σ Unit := ExceptT.lift (Session.log e)

/-- Make the file. -/
def makeFile (directory : DirectoryId) (f : NewFile) : Attempt σ FileId := ExceptT.mk do
  match ← Session.call H (.createFile directory f) with
  | .ok file => return .ok file
  | .error (.incorrectOperation cause) => return .error (.noClass f.className cause)
  | .error e => return .error (.host e)

/-- The class that a new file is there for, its first one. -/
def firstClass (name : Text) (file : FileId) : Attempt σ ClassInfo := do
  match ← attempt (Session.call H (.classesOf file)) with
  | c :: _ => return c
  | [] => throw (.noClass name Message.noClass.pattern)

/-- The first of some levels at which a class can be used in the file `origin`. -/
def firstAccessible? (c : ClassInfo) (origin : FileId) :
    List Visibility → Session σ (Option Visibility)
  | [] => return none
  | v :: vs => do
    if ← Session.call H (.isAccessible { c with visibility? := some v } origin) then return some v
    else firstAccessible? c origin vs

/-- The level that a class must be given to be used in the file `origin`; `none` if it can be used
there. -/
def requiredVisibility? (policy : VisibilityPolicy) (c : ClassInfo) (origin : FileId) :
    Session σ (Option Visibility) :=
  match c.visibility? with
  | none => return none
  | some .pub => return none
  | some v => do
    if ← Session.call H (.isAccessible c origin) then return none
    else match policy with
      | .widest => return some .pub
      | .minimal => return some ((← firstAccessible? H c origin v.wider).getD .pub)

/-- Open up a class so that it can be used in the file `origin`. -/
def widen (policy : VisibilityPolicy) (c : ClassInfo) (origin : FileId) :
    Attempt σ (Option Visibility) := do
  match ← requiredVisibility? H policy c origin with
  | none => return none
  | some v =>
    attempt (Session.call H (.setVisibility c v))
    return some v

/-- Add a constructor if one is asked for; only plain classes get one. -/
def giveConstructor (isWanted : Bool) (c : ClassInfo) : Attempt σ Bool := do
  if isWanted && c.kind = .plain then
    attempt (Session.call H (.addConstructor c))
    return true
  else return false

/-- The class as its file has it now; the class as it was if the file has none of its name. -/
def reread (c : ClassInfo) (file : FileId) : Attempt σ ClassInfo := do
  match (← attempt (Session.call H (.classesOf file))).find? fun d => d.name = c.name with
  | some d => return d
  | none =>
    logged (lostEvent { c with file := file })
    return c

/-- Does a class need an import in the package `current`? Classes of the default package cannot be
imported. -/
def needsImport (q : QualifiedName) (current : PackageName) : Bool :=
  match q.package? with
  | some package => package ≠ current
  | none => false

/-- Import a class into the file `origin` if that is needed. -/
def giveImport (c : ClassInfo) (origin : FileId) (current : PackageName) :
    Session σ (Option QualifiedName) := do
  match c.qualified?.filter fun q => needsImport q current with
  | none => return none
  | some q =>
    match ← Session.call H (.addImport origin q) with
    | .ok () => return some q
    | .error e =>
      Session.log (importFailedEvent q e)
      return none

/-- Create the class that the user confirmed, for the code at `root`. -/
def CreateClass.create (fix : CreateClass) (s : CreateSettings) (root : Root)
    (request : CreationRequest) (directory : DirectoryId) : Attempt σ Created := do
  let name := request.className
  if name.isEmpty then throw .cancelled
  let template := s.templates.get fix.reference.kind
  let file ← makeFile H directory ⟨name, s.fileName name, template, request.package⟩
  let c ← firstClass H name file
  logged (createdEvent { c with file := file } template)
  let widened? ← widen H s.policy c root.file
  let constructorAdded ← giveConstructor H request.addConstructor c
  let c ← reread H c file
  let imported? ← giveImport H c root.file root.package
  return ⟨c, widened?, constructorAdded, imported?⟩

/-! ## The fix -/

/-- Log why nothing was created, or leave a notice about it. -/
def CreateClass.report (fix : CreateClass) : Failure → Session σ Outcome
  | .cancelled => return .cancelled
  | .noClass name cause => do
    Session.log (noClassEvent name cause)
    Session.post ⟨cannotCreateText name cause, Message.cannotCreateTitle.pattern⟩
    return .failed
  | .host e => do
    Session.log (failedEvent fix.reference.name e)
    return .failed

/-- Open a new class in an editor. -/
def navigate (c : ClassInfo) : Session σ Navigation := do
  match ← Session.call H (.pathOf c.file) with
  | none => return .skipped
  | some path =>
    match ← Session.call H (.openEditor path c.span.start true) with
    | .ok () => return .opened path c.span.start
    | .error e =>
      Session.log (openFailedEvent path e)
      return .failed

/-- What the fix offers to do. -/
def CreateClass.text (fix : CreateClass) : Text := createText fix.reference.name

/-- The code that the fix is for, if it was called for in the file of the reference. -/
def CreateClass.root? (fix : CreateClass) (place : Snapshot) : Option Root :=
  if place.file = fix.reference.file then place.root? else none

/-- Can the fix be offered there? -/
def CreateClass.isAvailable (fix : CreateClass) (place : Snapshot) : Bool :=
  (fix.root? place).isSome

/-- What the dialog starts with. -/
def CreateClass.dialog (fix : CreateClass) (root : Root) (module? : Option ModuleId) :
    DialogRequest where
  title := Message.family.pattern
  className := fix.reference.name
  package := root.package
  module? := module?
  kind := fix.reference.kind
  addConstructor := fix.addConstructor

/-- Run the fix for the code at `root`, outside of any write action. -/
def CreateClass.runAt (fix : CreateClass) (s : CreateSettings) (place : Snapshot) (root : Root) :
    Session σ Outcome := do
  let module? ← Session.call H (.moduleOf place.file)
  match ← Session.call H (.askUser (fix.dialog root module?)) with
  | none => return .cancelled
  | some request =>
    match request.directory? with
    | none =>
      Session.log noDirectoryEvent
      return .cancelled
    | some directory =>
      match ← Session.write (fix.create H s root request directory) with
      | .error e => fix.report e
      | .ok c => return .created c (← navigate H c.declared)

/-- Run the fix where the user called for it. -/
def CreateClass.invoke (fix : CreateClass) (s : CreateSettings) (place : Snapshot) :
    Session σ Outcome :=
  match fix.root? place with
  | none => return .notApplicable
  | some root => do
    if (← get).isWriting then
      Session.log (writingEvent fix.reference.name)
      return .notApplicable
    else fix.runAt H s place root

end

end QuickFix.Fix
