import QuickFix.Source.ClassEdit
import QuickFix.Name

/-!
# Imports

Imports are read line by line. `importEdit?` adds an import of a class to a source text unless one
of its lines imports the class already, by name or with all of its package (`importEdit?_eq_none_iff`).
The new line goes after the last import, else after the package line and one blank line, else to the
top.
-/

namespace QuickFix

namespace Source

/-- Does the text start with a blank? -/
def startsBlank (t : Text) : Bool := (t.head?.map Text.isBlank).getD false

/-- What follows the word `w` and a blank, if the text starts with them; the blank is kept. -/
def afterWord? (w t : Text) : Option Text := (Text.after? w t).filter startsBlank

/-- Is the line a package statement? -/
def isPackageLine (line : Text) : Bool := (afterWord? "package" (Text.trimStart line)).isSome

/-- The path that a line imports: the first word of what stands between `import` and the semicolon.
Static imports have none. -/
def importPath? (line : Text) : Option Text := do
  let rest := Text.trimStart (← afterWord? "import" (Text.trimStart line))
  if (afterWord? "static" rest).isSome then none
  else
    let path := Text.firstWord (Text.trim (rest.takeWhile (· ≠ ';')))
    if path.isEmpty then none else some path

/-- Does an import of `path` bring in the class `name`: by name, or as a member of the package whose
members it imports all? -/
def covers (path name : Text) : Bool :=
  path = name ||
    match Text.after? ['*', '.'] path.reverse with
    | some package =>
      match Text.after? (package.reverse ++ ['.']) name with
      | some simple => !simple.elem '.'
      | none => false
    | none => false

/-- The paths that the lines of a text import, in order. -/
def importPaths (t : Text) : List Text :=
  (Text.rows t).filterMap fun row => importPath? (Text.chomp row)

/-- The rows up to and with the first that satisfies `p`, and the others. -/
def throughFirst? (p : Text → Bool) : List Text → Option (List Text × List Text)
  | [] => none
  | r :: rs =>
    if p r then some ([r], rs) else (throughFirst? p rs).map fun (a, b) => (r :: a, b)

/-- The rows up to and with the last that satisfies `p`, and the others. -/
def throughLast? (p : Text → Bool) (rs : List Text) : Option (List Text × List Text) :=
  (throughFirst? p rs.reverse).map fun (a, b) => (b.reverse ++ (a.getLast?).toList, a.dropLast.reverse)

/-- Where a new import goes. -/
structure ImportPlace where
  /-- The text before it, made of whole lines. -/
  before : Text
  /-- Should an empty line separate it from the text before? -/
  apart : Bool
  deriving DecidableEq, Repr

/-- Is the row a line of blanks with a line feed? -/
def isBlankRow (row : Text) : Bool := Text.endsWith row ['\n'] && (Text.trim row).isEmpty

/-- After the last import, else after the package line and one blank line that may follow it, else
at the top. -/
def importPlace (t : Text) : ImportPlace :=
  let rows := Text.rows t
  match throughLast? (fun row => (importPath? (Text.chomp row)).isSome) rows with
  | some (above, _) => ⟨above.flatten, false⟩
  | none =>
    match throughFirst? (fun row => isPackageLine (Text.chomp row)) rows with
    | some (above, row :: _) => ⟨above.flatten ++ if isBlankRow row then row else [], true⟩
    | some (above, []) => ⟨above.flatten, true⟩
    | none => ⟨[], false⟩

/-- The line end that completes the line before the import, if it lacks one, and the empty line
before the import, if one is wanted and missing. -/
def importLead (newline : Text) (place : ImportPlace) : Text :=
  (if !place.before.isEmpty && !Text.endsWith place.before ['\n'] then newline else []) ++
    if place.apart && !Text.endsWith place.before (newline ++ newline) then newline else []

/-- What is put into the text `t` for an import of `q` at `place`. -/
def importText (q : QualifiedName) (place : ImportPlace) (t : Text) : Text :=
  let newline := lineEnd t
  importLead newline place ++ "import " ++ q.text ++ ";" ++ newline ++
    if place.before.isEmpty && !t.isEmpty then newline else []

end Source

open Source

/-- The edit that adds an import of `q`; `none` if the text imports it. -/
def importEdit? (q : QualifiedName) (t : Text) : Option Edit :=
  if (importPaths t).any (covers · q.text) then none
  else
    let place := importPlace t
    some (.insert (Text.bytes place.before) (importText q place t))

theorem importEdit?_eq_none_iff {q : QualifiedName} {t : Text} :
    importEdit? q t = none ↔ ∃ path ∈ importPaths t, covers path q.text = true := by
  simp [importEdit?]

end QuickFix
