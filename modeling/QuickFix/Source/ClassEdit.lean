import QuickFix.Source.Declaration
import QuickFix.Text.Edit

/-!
# Edits of a declaration

`Declaration.visibilityEdit` gives a declaration another access level by putting, replacing or
removing its modifier, and `Declaration.constructorEdit` puts an empty constructor at the top of its
body. Both read a text in which the declaration was found; offsets that do not lie between
characters of that text are an error.
-/

namespace QuickFix

/-- The declaration was found in another text. -/
inductive StaleDeclaration where
  /-- No place of the text has this offset. -/
  | noPlace (offset : Nat)
  deriving DecidableEq, Repr

namespace Source

/-- The line end that is put into a text: the pair of both characters if the text holds one. -/
def lineEnd (t : Text) : Text := if Text.contains t ['\r', '\n'] then ['\r', '\n'] else ['\n']

/-- Both sides of a place in the text. -/
def cutAt (offset : Nat) (t : Text) : Except StaleDeclaration (Text × Text) :=
  match Text.cutBytes? offset t with
  | some sides => .ok sides
  | none => .error (.noPlace offset)

/-- The spaces and tabs at the start of the last line of `t`. -/
def lastIndent (t : Text) : Text :=
  ((t.reverse.takeWhile (· ≠ '\n')).reverse).takeWhile fun c => c = ' ' || c = '\t'

end Source

namespace Declaration

open Source

/-- The edit that gives the declaration the level `v`; `none` if it has that level. Removing the
modifier removes the blanks after it too. -/
def visibilityEdit (d : Declaration) (v : Visibility) (t : Text) :
    Except StaleDeclaration (Option Edit) :=
  if d.visibility = v then .ok none
  else match d.visibilitySpan?, v.keyword? with
    | some span, some word => .ok (some ⟨span, word⟩)
    | some span, none => do
      let (_, rest) ← cutAt span.stop t
      return some ⟨⟨span.start, span.stop + Text.bytes (rest.takeWhile Text.isBlank)⟩, []⟩
    | none, some word => .ok (some (.insert d.modifierStart (word ++ " ")))
    | none, none => .ok none

/-- The lines of an empty public constructor of the class `name`. -/
def constructorText (name indent newline : Text) : Text :=
  indent ++ "public " ++ name ++ "() \x7b" ++ newline ++ indent ++ "\x7d" ++ newline

/-- The edit that puts an empty public constructor after the opening brace, on lines of its own;
`none` if the declaration has no body. -/
def constructorEdit (d : Declaration) (t : Text) : Except StaleDeclaration (Option Edit) :=
  match d.bodySpan? with
  | none => .ok none
  | some body => do
    let (before, _) ← cutAt d.span.start t
    let newline := lineEnd t
    let text := constructorText d.name (lastIndent before ++ "    ") newline
    let inside := body.start + 1
    return (Text.cutBytes? inside t).map fun (_, rest) =>
      if Text.startsWith rest newline then .insert (inside + Text.bytes newline) text
      else .insert inside (newline ++ text)

end Declaration

end QuickFix
