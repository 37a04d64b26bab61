import QuickFix.Text.Blank
import QuickFix.Text.Identifier

/-!
# Package and class names

Names are identifiers joined by dots. The empty package is the default package: a class in it has an
undotted qualified name and cannot be imported. Names that come from data are taken as they are;
`PackageName.parse?` and `QualifiedName.parse?` are the checked ways in.
-/

namespace QuickFix

/-- Is the text made of identifiers joined by single dots? -/
def Text.isDotted (t : Text) : Bool := (t.splitOn '.').all Text.isIdentifier

/-- The order of names, by their characters; it is also the order of their bytes. -/
def Text.order (a b : Text) : Ordering := compareOn (List.map Char.toNat) a b

/-- Name of a package, empty for the default package. -/
structure PackageName where
  text : Text
  deriving DecidableEq, Repr, Inhabited

/-- Name of a class with its package before it. -/
structure QualifiedName where
  text : Text
  deriving DecidableEq, Repr, Inhabited

namespace QualifiedName

/-- The name that a text gives, blanks around it ignored. -/
def parse? (t : Text) : Option QualifiedName :=
  let t := Text.trim t
  if Text.isDotted t then some ⟨t⟩ else none

/-- What stands before and after the last dot. -/
def split? (q : QualifiedName) : Option (Text × Text) :=
  match q.text.reverse.splitOn '.' with
  | last :: rest :: more => some ((Text.join ['.'] (rest :: more)).reverse, last.reverse)
  | _ => none

/-- The part after the last dot. -/
def simple (q : QualifiedName) : Text := (q.split?.map (·.2)).getD q.text

/-- The package, absent for a class of the default package. -/
def package? (q : QualifiedName) : Option PackageName := q.split?.map fun s => ⟨s.1⟩

end QualifiedName

namespace PackageName

/-- The default package. -/
def default : PackageName := ⟨[]⟩

/-- Is it the default package? -/
def isDefault (p : PackageName) : Bool := p.text.isEmpty

/-- The name that a text gives, blanks around it ignored; an empty text gives the default package. -/
def parse? (t : Text) : Option PackageName :=
  let t := Text.trim t
  if t.isEmpty then some default else if Text.isDotted t then some ⟨t⟩ else none

/-- The parts between dots, empty ones left out. -/
def segments (p : PackageName) : List Text :=
  (p.text.splitOn '.').filter fun s => !s.isEmpty

/-- Name of the class `simple` in this package. -/
def qualify (p : PackageName) (simple : Text) : QualifiedName :=
  if p.isDefault then ⟨simple⟩ else ⟨p.text ++ ['.'] ++ simple⟩

end PackageName

end QuickFix
