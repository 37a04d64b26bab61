import QuickFix.Fix.Override
import QuickFix.Project.Serve
import QuickFix.Schedule.Lock

/-!
# Working on a project

Actions on a project: setting it up, looking at it, offering and running the fix, and calling its
host. Together with the scheduler's own steps they are programs, and `meaning` says what an action
does.
-/

namespace QuickFix.Project

open QuickFix.Fix

/-- What can be made to fail once. -/
inductive Fault where
  | creation
  | imports
  | opening
  deriving DecidableEq, Repr

/-- Something that is done on a project. -/
inductive Action where
  | addDirectory (package : Text) (isStored : Bool)
  | addFile (directory : DirectoryId) (name : Text) (kind : FileKind) (text : Text)
  | setTemplate (name text : Text)
  | sealPackage (package : Text)
  | overwriteAfterNextEdit (text : Text)
  | failNext (fault : Fault) (e : HostError)
  | setDialog (script : DialogScript)
  | textOf (file : FileId)
  | findFile (directory : DirectoryId) (name : Text)
  /-- Offer the fix in a file, and run it unless `isOnlyOffered`. -/
  | offer (fix : CreateClass) (file : FileId) (isOnlyOffered : Bool)
  | call (c : Call)
  /-- Show the host for debugging. -/
  | showHost
  deriving DecidableEq, Repr

/-- What the user sees of the fix. -/
structure Offer where
  isAvailable : Bool
  root? : Option Root
  /-- What came of it, if it was run. -/
  outcome? : Option Outcome
  deriving DecidableEq, Repr

/-- The answer to an action. -/
inductive Answer where
  | done
  | directory (d : DirectoryId)
  | file (f : FileId)
  | fileIfAny (f? : Option FileId)
  | textIfAny (t? : Option Text)
  | offered (o : Offer)
  | replied (c : Call) (reply : c.Reply)
  | shown (t : Text)

/-- The policy as it is shown for debugging. -/
def showPolicy : VisibilityPolicy → Text
  | .widest => "Public"
  | .minimal => "Minimal"

/-- Fields between braces after the name of a record. -/
def showRecord (name : Text) (fields : List (Text × Text)) (isOpen : Bool) : Text :=
  let shown := fields.map fun (n, v) => n ++ ": " ++ v
  name ++ " \x7b " ++ Text.join ", " (shown ++ if isOpen then [['.', '.']] else []) ++ " \x7d"

/-- Settings as they are shown for debugging. -/
def showSettings (s : CreateSettings) : Text :=
  let template (k : ClassKind) : Text := Text.quote (s.templates.get k)
  showRecord "CreateClassConfig" [
    ("file_extension", Text.quote s.extension),
    ("templates", showRecord "TemplatesConfig" [
      ("class", template .plain), ("interface", template .interface), ("enum_", template .enum),
      ("annotation", template .annotationType)] false),
    ("visibility", showPolicy s.policy)] false

/-- The host as it is shown for debugging. -/
def showHost (pending : Nat) (s : CreateSettings) : Text :=
  showRecord "HostServices" [
    ("scheduler", Schedule.showScheduler pending Schedule.showLock),
    ("config", showSettings s)] true

/-! ## What actions do -/

/-- A project, and the number of calls for classes that an override has seen. -/
abbrev World := Project × Nat

/-- What an action did. -/
abbrev Reaction := Schedule.Reaction World Answer ErrorNotice

/-- An action that only changes the project. -/
def changed (w : World) (p : Project) (a : Answer) : Reaction := ⟨(p, w.2), .ok a, none, []⟩

/-- An action that is a misuse of the project. -/
def misused (w : World) (m : Misuse) : Reaction := ⟨w, .error (.text m.message), none, []⟩

/-- Offer the fix in a file, and run it if that is wanted. -/
def offer (H : Host World) (s : CreateSettings) (fix : CreateClass) (id : FileId)
    (isOnlyOffered : Bool) (v : Schedule.View) (w : World) : Reaction :=
  match w.1.file? id with
  | none => misused w .unknownFile
  | some f =>
    let place := f.snapshot id
    let offered (outcome? : Option Outcome) : Answer :=
      .offered ⟨fix.isAvailable place, place.root?, outcome?⟩
    if isOnlyOffered then ⟨w, .ok (offered none), none, []⟩
    else
      let (outcome, after) := fix.invoke H s place ⟨w, v.depth, none, []⟩
      ⟨after.world, .ok (offered (some outcome)), after.notice?, after.events⟩

/-- What an action does. -/
def act (H : Host World) (s : CreateSettings) (a : Action) (v : Schedule.View) (w : World) :
    Reaction :=
  let p := w.1
  match a with
  | .addDirectory package isStored =>
    match p.addDirectory package isStored with
    | .error m => misused w m
    | .ok (d, p) => changed w p (.directory d)
  | .addFile d name kind text =>
    match p.addFile d name kind text with
    | .error m => misused w m
    | .ok (f, p) => changed w p (.file f)
  | .setTemplate name text => changed w (p.setTemplate name text) .done
  | .sealPackage package =>
    match p.sealPackage package with
    | .error m => misused w m
    | .ok p => changed w p .done
  | .overwriteAfterNextEdit text => changed w { p with overwrite? := some text } .done
  | .failNext .creation e => changed w { p with failCreation? := some e } .done
  | .failNext .imports e => changed w { p with failImport? := some e } .done
  | .failNext .opening e => changed w { p with failOpen? := some e } .done
  | .setDialog script => changed w { p with script := script } .done
  | .textOf f => changed w p (.textIfAny ((p.file? f).map File.text))
  | .findFile d name => changed w p (.fileIfAny (p.find? d name))
  | .offer fix f isOnlyOffered => offer H s fix f isOnlyOffered v w
  | .call c =>
    let r := H c v.isWriting w
    ⟨r.world, .ok (.replied c r.reply), none, r.events⟩
  | .showHost => changed w p (.shown (showHost v.pending s))

/-- The meaning of actions. A notice shows an error to the user. -/
def meaning (H : Host World) (s : CreateSettings) :
    Schedule.Meaning Action World Answer ErrorNotice where
  act := act H s
  notify n v w :=
    let r := H (.showError n) v.isWriting w
    (r.world, r.events)

/-- A machine over a project. -/
abbrev Machine := Schedule.Machine Action World Answer ErrorNotice

/-- Run a program on a project with the jobs that are put off. -/
def run (o : Override) (s : CreateSettings) (w : World)
    (queue : List (Schedule.Job Action ErrorNotice)) (p : Schedule.Program Action) : Machine :=
  (Schedule.Machine.load w queue p).run (meaning (o.before host) s)

end QuickFix.Project
