import QuickFix.Fix.Create
import QuickFix.Project.Template
import QuickFix.Source.Import

/-!
# Projects in memory

A project keeps its files, directories and templates in memory, answers the dialog from a script, and
records what it is asked to do. Files and directories are known by their place in order.
-/

namespace QuickFix

open QuickFix.Fix

namespace Project

/-- What a file holds. -/
inductive FileKind where
  /-- A compilation unit. -/
  | source
  /-- A document with code in it. -/
  | embedded
  | script
  /-- No code at all. -/
  | plainText
  deriving DecidableEq, Repr

/-- A file. -/
structure File where
  name : Text
  directory : DirectoryId
  kind : FileKind
  text : Text
  path? : Option Text
  module? : Option ModuleId
  deriving DecidableEq, Repr

/-- A directory; without a path, what is in it is not stored. -/
structure Directory where
  package : PackageName
  path? : Option Text
  module? : Option ModuleId
  deriving DecidableEq, Repr

/-- The answer that the dialog gives. -/
inductive DialogScript where
  | cancel
  /-- Confirm with a directory; the name and the choice about a constructor stay as they are where
  none is given. -/
  | confirm (directory? : Option DirectoryId) (className? : Option Text)
    (addConstructor? : Option Bool)
  deriving DecidableEq, Repr

/-- An editor that was opened. -/
structure EditorOpen where
  path : Text
  offset : Nat
  focus : Bool
  deriving DecidableEq, Repr

end Project

open Project

/-- A project in memory. -/
structure Project where
  files : List File
  directories : List Directory
  /-- Templates by name, the latest first. -/
  templates : List (Text × Text)
  script : DialogScript
  /-- The error that the next creation of a file ends in. -/
  failCreation? : Option HostError
  /-- The error that the next import ends in. -/
  failImport? : Option HostError
  /-- The error that the next opening of an editor ends in. -/
  failOpen? : Option HostError
  /-- Packages whose classes are hidden from other packages. -/
  sealedPackages : List PackageName
  /-- The text that another writer puts into the next file that is edited. -/
  overwrite? : Option Text
  /-- Number of calls so far. -/
  calls : Nat
  dialogs : List DialogRequest
  imports : List (FileId × QualifiedName)
  opens : List EditorOpen
  errors : List ErrorNotice
  /-- Calls that were made inside or outside of a write action where they must not be. -/
  violations : List Text
  deriving DecidableEq, Repr

namespace Project

/-- The module that a new directory belongs to. -/
def mainModule : ModuleId := ⟨0⟩

/-- Templates that every project has. -/
def defaultTemplates : List (Text × Text) :=
  let body (word : Text) : Text :=
    "package " ++ placeholder "PACKAGE_NAME" ++ "\n\n" ++ word ++ " " ++ placeholder "NAME" ++
      " \x7b\n\x7d\n"
  ClassKind.all.map fun k => (Templates.default.get k, body k.keyword)

/-- A project without files. -/
def empty : Project where
  files := []
  directories := []
  templates := defaultTemplates
  script := .cancel
  failCreation? := none
  failImport? := none
  failOpen? := none
  sealedPackages := []
  overwrite? := none
  calls := 0
  dialogs := []
  imports := []
  opens := []
  errors := []
  violations := []

/-! ## Looking at a project -/

/-- The file with an id. -/
def file? (p : Project) (f : FileId) : Option File := p.files[f.number]?

/-- The module that a file belongs to, if it is there and belongs to one. -/
def module? (p : Project) (f : FileId) : Option ModuleId := (p.file? f).bind File.module?

/-- The directory with an id. -/
def directory? (p : Project) (d : DirectoryId) : Option Directory := p.directories[d.number]?

/-- The first file of a directory with a name. -/
def find? (p : Project) (d : DirectoryId) (name : Text) : Option FileId :=
  (p.files.findIdx? fun f => f.directory = d ∧ f.name = name).map FileId.mk

/-- The package that the package statement of a text names. -/
def statedPackage (t : Text) : PackageName := ((packageOf? t).map (·.name)).getD .default

/-- The package of a file; only compilation units state one. -/
def File.package (f : File) : PackageName :=
  if f.kind = .source then statedPackage f.text else .default

/-- A file as the user sees it. -/
def File.snapshot (f : File) (id : FileId) : Snapshot where
  file := id
  root? := match f.kind with
    | .source => some (.compilationUnit id (statedPackage f.text))
    | .embedded => some (.script id)
    | .script => some (.script id)
    | .plainText => none

/-- The path of `part` seen from `base`; a path from the root stays as it is. -/
def joinPath (base part : Text) : Text :=
  if part.head? = some '/' then part
  else if base.isEmpty || base.getLast? = some '/' then base ++ part
  else base ++ ['/'] ++ part

/-! ## Changing a project -/

/-- What must not be asked of a project. -/
inductive Misuse where
  | invalidPackage
  | unknownDirectory
  | unknownFile
  deriving DecidableEq, Repr

/-- Wording of a misuse. -/
def Misuse.message : Misuse → Text
  | .invalidPackage => "valid package name"
  | .unknownDirectory => "directory registered with add_directory"
  | .unknownFile => "file registered with add_file"

/-- The package that a text names. -/
def packageOf (t : Text) : Except Misuse PackageName :=
  (PackageName.parse? t).elim (.error .invalidPackage) .ok

/-- Add a directory for a package; if its files are stored, then under the path of the package. -/
def addDirectory (p : Project) (package : Text) (isStored : Bool) :
    Except Misuse (DirectoryId × Project) := do
  let package ← packageOf package
  let path? := if isStored then some (package.segments.foldl joinPath "/src") else none
  let dir : Directory := ⟨package, path?, some mainModule⟩
  return (⟨p.directories.length⟩, { p with directories := p.directories ++ [dir] })

/-- A file of the directory `d`, which is `home`. Its path follows that of the directory, and it
belongs to the same module. -/
def Directory.file (home : Directory) (d : DirectoryId) (name : Text) (kind : FileKind)
    (text : Text) : File where
  name := name
  directory := d
  kind := kind
  text := text
  path? := home.path?.map (joinPath · name)
  module? := home.module?

/-- Put a new file behind the others. -/
def putFile (p : Project) (f : File) : FileId × Project :=
  (⟨p.files.length⟩, { p with files := p.files ++ [f] })

/-- Add a file to a directory. -/
def addFile (p : Project) (d : DirectoryId) (name : Text) (kind : FileKind) (text : Text) :
    Except Misuse (FileId × Project) :=
  match p.directory? d with
  | none => .error .unknownDirectory
  | some dir => .ok (p.putFile (dir.file d name kind text))

/-- Give a template another text. -/
def setTemplate (p : Project) (name text : Text) : Project :=
  { p with templates := (name, text) :: p.templates }

/-- Hide the classes of a package from other packages. -/
def sealPackage (p : Project) (package : Text) : Except Misuse Project := do
  let package ← packageOf package
  return { p with sealedPackages := package :: p.sealedPackages }

/-- Give a file another text. -/
def setText (p : Project) (f : FileId) (text : Text) : Project :=
  { p with files := p.files.modify f.number fun file => { file with text := text } }

end Project

end QuickFix
