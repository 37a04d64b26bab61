import QuickFix.Text.Basic

/-!
# Kinds and access levels of classes

Four kinds of class-like declarations, and four access levels from the narrowest to the widest.
-/

namespace QuickFix

/-- Kind of a class-like declaration. -/
inductive ClassKind where
  | plain
  | interface
  | enum
  | annotationType
  deriving DecidableEq, Repr, Inhabited

namespace ClassKind

/-- All kinds. -/
def all : List ClassKind := [.plain, .interface, .enum, .annotationType]

/-- The word that introduces a declaration of this kind in source text. -/
def keyword : ClassKind → Text
  | .plain => "class"
  | .interface => "interface"
  | .enum => "enum"
  | .annotationType => "@interface"

/-- Name of the kind in data. -/
def name : ClassKind → Text
  | .plain => "class"
  | .interface => "interface"
  | .enum => "enum"
  | .annotationType => "annotation"

end ClassKind

/-- Access level of a declaration. -/
inductive Visibility where
  | priv
  | package
  | prot
  | pub
  deriving DecidableEq, Repr, Inhabited

namespace Visibility

/-- All levels, narrowest first. -/
def all : List Visibility := [.priv, .package, .prot, .pub]

/-- Place of the level in the order from narrow to wide. -/
def rank : Visibility → Nat
  | .priv => 0
  | .package => 1
  | .prot => 2
  | .pub => 3

/-- The modifier that gives this level; the package level has none. -/
def keyword? : Visibility → Option Text
  | .priv => some "private"
  | .package => none
  | .prot => some "protected"
  | .pub => some "public"

/-- The level that a modifier gives. -/
def ofKeyword? (word : Text) : Option Visibility :=
  if word = "private" then some .priv
  else if word = "protected" then some .prot
  else if word = "public" then some .pub
  else none

theorem ofKeyword?_eq_some_iff {word : Text} {v : Visibility} :
    ofKeyword? word = some v ↔ v.keyword? = some word := by
  unfold ofKeyword?
  split
  · subst word; cases v <;> simp [keyword?]
  · split
    · subst word; cases v <;> simp [keyword?]
    · split
      · subst word; cases v <;> simp [keyword?]
      · cases v <;> simp_all [keyword?, eq_comm]

/-- Name of the level in data. -/
def name : Visibility → Text
  | .priv => "private"
  | .package => "package_private"
  | .prot => "protected"
  | .pub => "public"

/-- The levels that are strictly wider, narrowest first. -/
def wider (v : Visibility) : List Visibility := all.filter fun w => v.rank < w.rank

end Visibility

end QuickFix
