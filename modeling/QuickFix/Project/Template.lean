import QuickFix.Fix.Host
import QuickFix.Text.Blank

/-!
# File templates

A template is a text with variables for the name of the class and its package. When a file is made
from it, a package line that is left without a package is dropped, with one blank line after it.
-/

namespace QuickFix.Project

/-- Where a template has the value of the variable `name`. -/
def placeholder (name : Text) : Text := "$\x7b" ++ name ++ "\x7d"

/-- The template with the values put in, the name of the class first. -/
def substitute (template : Text) (f : Fix.NewFile) : Text :=
  Text.replaceAll (placeholder "PACKAGE_NAME") f.package.text
    (Text.replaceAll (placeholder "NAME") f.className template)

/-- Is the row a package line without a package? -/
def isPackageStub (row : Text) : Bool :=
  let t := Text.trim row
  t = "package" || t = "package;"

/-- The rows that are kept; `afterStub` says whether a blank row is to be dropped. -/
def keptRows (afterStub : Bool) : List Text → List Text
  | [] => []
  | r :: rs =>
    if isPackageStub r then keptRows true rs
    else if afterStub && (Text.trim r).isEmpty then keptRows false rs
    else r :: keptRows false rs

/-- The text of a file that is made from a template. -/
def renderTemplate (template : Text) (f : Fix.NewFile) : Text :=
  (keptRows false (Text.rows (substitute template f))).flatten

end QuickFix.Project
