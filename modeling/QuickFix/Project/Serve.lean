import QuickFix.Project.State

/-!
# Projects as hosts

How a project in memory answers calls. Every call is counted. Changes of files belong into a write
action, and everything that shows something to the user belongs outside; a call in the wrong place is
answered all the same, but noted as a violation.
-/

namespace QuickFix.Project

open QuickFix.Fix

/-! ## Where calls belong -/

/-- Where a call belongs. -/
inductive Affinity where
  /-- Within a write action. -/
  | inside
  /-- Outside of any write action. -/
  | outside
  | anywhere
  deriving DecidableEq, Repr

/-- Name of a call in a violation. -/
def callName : Call → Text
  | .moduleOf _ => "module_for_file"
  | .askUser _ => "create class dialog"
  | .createFile _ _ => "create_from_template"
  | .classesOf _ => "class_declarations"
  | .isAccessible _ _ => "is_accessible"
  | .setVisibility _ _ => "set_visibility"
  | .addConstructor _ => "add_default_constructor"
  | .pathOf _ => "storage_path"
  | .addImport _ _ => "add_import"
  | .openEditor _ _ _ => "open_text_editor"
  | .showError _ => "error dialog"

/-- Where a call belongs. -/
def affinity : Call → Affinity
  | .createFile _ _ => .inside
  | .setVisibility _ _ => .inside
  | .addConstructor _ => .inside
  | .addImport _ _ => .inside
  | .askUser _ => .outside
  | .openEditor _ _ _ => .outside
  | .showError _ => .outside
  | .moduleOf _ => .anywhere
  | .classesOf _ => .anywhere
  | .isAccessible _ _ => .anywhere
  | .pathOf _ => .anywhere

/-- What a call in the wrong place is noted as. -/
def violation? (c : Call) (isWriting : Bool) : Option Text :=
  match affinity c, isWriting with
  | .inside, false => some (callName c ++ " outside a write action")
  | .outside, true => some (callName c ++ " inside a write action")
  | _, _ => none

/-- Count a call. -/
def enter (p : Project) (c : Call) (isWriting : Bool) : Project :=
  { p with calls := p.calls + 1, violations := p.violations ++ (violation? c isWriting).toList }

/-! ## Answers -/

/-- Ask the user. The package is that of the directory, if there is one, and so is the module, if it has
one. -/
def askUser (p : Project) (r : DialogRequest) : Option CreationRequest × Project :=
  let answer := match p.script with
    | .cancel => none
    | .confirm directory? className? addConstructor? =>
      let dir? := directory?.bind p.directory?
      some {
        directory? := directory?
        package := (dir?.map Directory.package).getD r.package
        className := className?.getD r.className
        module? := (dir?.bind Directory.module?).or r.module?
        addConstructor := addConstructor?.getD r.addConstructor }
  (answer, { p with dialogs := p.dialogs ++ [r] })

/-- A file is made from a template. -/
def renderingEvent (f : NewFile) : Log.Event :=
  ⟨.trace, "nova.test_utils", "rendering template", [
    .quoted "name" f.className, .quoted "file_name" f.fileName, .quoted "template" f.template]⟩

/-- Why a file cannot be made, or the directory for it and the text of its template. -/
def checkNewFile (p : Project) (d : DirectoryId) (f : NewFile) :
    Except HostError (Directory × Text) :=
  match p.failCreation?, p.directory? d, p.templates.lookup f.template, p.find? d f.fileName with
  | some e, _, _, _ => .error e
  | none, none, _, _ => .error (.unknownDirectory d)
  | none, some _, none, _ => .error (.unknownTemplate f.template)
  | none, some _, some _, some _ => .error (.fileExists f.fileName)
  | none, some dir, some template, none => .ok (dir, template)

/-- Make a file from a template. -/
def createFile (p : Project) (d : DirectoryId) (f : NewFile) :
    Except HostError FileId × Project × List Log.Event :=
  let checked := p.checkNewFile d f
  let p := { p with failCreation? := none }
  match checked with
  | .error e => (.error e, p, [])
  | .ok (dir, template) =>
    let (id, p) := p.putFile (dir.file d f.fileName .source (renderTemplate template f))
    (.ok id, p, [renderingEvent f])

/-- A declaration in a file as a class. -/
def classInfo (id : FileId) (package : PackageName) (d : Declaration) : ClassInfo where
  file := id
  name := d.name
  kind := d.kind
  qualified? := some (package.qualify d.name)
  visibility? := some d.visibility
  span := d.span

/-- The classes of a file; only compilation units have some. -/
def classesOf (p : Project) (id : FileId) : Except HostError (List ClassInfo) :=
  match p.file? id with
  | none => .error (.unknownFile id)
  | some f =>
    if f.kind = .source then .ok ((declarations f.text).map (classInfo id f.package)) else .ok []

/-- Can a class be used in a file? A private one only in its own file, one of the middle levels only
in its package, and one of a sealed package at most there. -/
def isAccessible (p : Project) (c : ClassInfo) (origin : FileId) : Bool :=
  match p.file? origin with
  | none => false
  | some f =>
    let package? := c.qualified?.map fun q => q.package?.getD .default
    let isNear := package? = some f.package
    if !isNear && package?.any (· ∈ p.sealedPackages) then false
    else match c.visibility? with
      | none => true
      | some .pub => true
      | some .prot => isNear
      | some .package => isNear
      | some .priv => c.file = origin

/-- The text after an edit, if there is one. -/
def edited (t : Text) : Option Edit → Except HostError Text
  | none => .ok t
  | some e => (e.apply t).mapError fun x => .incorrectOperation x.message

/-- The text after an edit of the class `name` in it. -/
def editedClass (name t : Text) (edit : Declaration → Option Edit) : Except HostError Text :=
  match (declarations t).find? fun d => d.name = name with
  | none => .error (.incorrectOperation ("class " ++ Text.tick name ++ " not found"))
  | some d => edited t (edit d)

/-- Edit a class; if another writer waits for that, its text takes the place of the whole file. -/
def editClass (p : Project) (c : ClassInfo)
    (edit : Declaration → Text → Except StaleDeclaration (Option Edit)) :
    Except HostError Unit × Project :=
  let overwrite? := p.overwrite?
  let p := { p with overwrite? := none }
  match p.file? c.file with
  | none => (.error (.unknownFile c.file), p)
  | some f =>
    match editedClass c.name f.text fun d => (edit d f.text).toOption.join with
    | .error e => (.error e, p)
    | .ok t => (.ok (), p.setText c.file (overwrite?.getD t))

/-- Add an import to a file. -/
def addImport (p : Project) (id : FileId) (q : QualifiedName) : Except HostError Unit × Project :=
  match p.failImport? with
  | some e => (.error e, { p with failImport? := none })
  | none =>
    let p := { p with imports := p.imports ++ [(id, q)] }
    match p.file? id with
    | none => (.error (.unknownFile id), p)
    | some f =>
      match edited f.text (importEdit? q f.text) with
      | .error e => (.error e, p)
      | .ok t => (.ok (), p.setText id t)

/-- Open an editor. -/
def openEditor (p : Project) (path : Text) (offset : Nat) (focus : Bool) :
    Except HostError Unit × Project :=
  match p.failOpen? with
  | some e => (.error e, { p with failOpen? := none })
  | none => (.ok (), { p with opens := p.opens ++ [⟨path, offset, focus⟩] })

/-! ## The host -/

/-- The project as a host. -/
def host : Host Project := fun c isWriting p =>
  let p := p.enter c isWriting
  match c with
  | .moduleOf id => ⟨p.module? id, p, []⟩
  | .askUser r => let (a, p) := p.askUser r; ⟨a, p, []⟩
  | .createFile d f => let (a, p, es) := p.createFile d f; ⟨a, p, es⟩
  | .classesOf id => ⟨p.classesOf id, p, []⟩
  | .isAccessible c origin => ⟨p.isAccessible c origin, p, []⟩
  | .setVisibility c v => let (a, p) := p.editClass c fun d => d.visibilityEdit v; ⟨a, p, []⟩
  | .addConstructor c => let (a, p) := p.editClass c Declaration.constructorEdit; ⟨a, p, []⟩
  | .pathOf id => ⟨(p.file? id).bind File.path?, p, []⟩
  | .addImport id q => let (a, p) := p.addImport id q; ⟨a, p, []⟩
  | .openEditor path offset focus => let (a, p) := p.openEditor path offset focus; ⟨a, p, []⟩
  | .showError n => ⟨(), { p with errors := p.errors ++ [n] }, []⟩

end QuickFix.Project
