import QuickFix.Source.Declaration

/-!
# Compilation units

A source file as a tree: a package clause, imports, and declarations with their annotations and
modifiers, keyword, name, header and body. `CompilationUnit.tokens` spells a tree and
`CompilationUnit.declarations` lists what it declares. Inside parentheses and bodies brackets are
balanced (`Balanced`); nothing else is asked of the tokens there.
-/

namespace QuickFix.Source

/-! ## Tokens -/

/-- A token of the kind `kind`. -/
structure Leaf (kind : TokenKind) where
  start : Nat
  text : Text

/-- A token of the kind `kind` that reads `text`. -/
structure Fixed (kind : TokenKind) (text : Text) where
  start : Nat

def Leaf.token {kind : TokenKind} (l : Leaf kind) : Token := ⟨kind, l.start, l.text⟩

def Fixed.token {kind : TokenKind} {text : Text} (f : Fixed kind text) : Token :=
  ⟨kind, f.start, text⟩

/-- A dot and the identifier after it. -/
structure Segment where
  dot : Leaf .dot
  word : Leaf .word

def Segment.tokens (s : Segment) : List Token := [s.dot.token, s.word.token]

/-- Identifiers joined by dots. -/
structure DottedName where
  first : Leaf .word
  more : List Segment

def DottedName.tokens (n : DottedName) : List Token :=
  n.first.token :: n.more.flatMap Segment.tokens

/-- The words of the name with a dot between neighbours. -/
def DottedName.text (n : DottedName) : Text :=
  n.first.text ++ n.more.flatMap fun s => '.' :: s.word.text

/-- The dot and star after a name of which all members are meant. -/
structure Star where
  dot : Leaf .dot
  sign : Fixed .other ['*']

def Star.tokens (s : Star) : List Token := [s.dot.token, s.sign.token]

/-! ## Brackets -/

/-- Every token of kind `o` is closed by one of kind `c`, and the other way round. -/
inductive Balanced (o c : TokenKind) : List Token → Prop
  | nil : Balanced o c []
  | plain {k : Token} {ts : List Token} :
      k.kind ≠ o → k.kind ≠ c → Balanced o c ts → Balanced o c (k :: ts)
  | group {a b : Token} {inner ts : List Token} :
      a.kind = o → Balanced o c inner → b.kind = c → Balanced o c ts →
      Balanced o c (a :: (inner ++ b :: ts))

/-- A bracket, balanced tokens, and the bracket that closes it. -/
structure Group (o c : TokenKind) where
  opening : Leaf o
  inner : List Token
  balanced : Balanced o c inner
  closing : Leaf c

def Group.tokens {o c : TokenKind} (g : Group o c) : List Token :=
  g.opening.token :: (g.inner ++ [g.closing.token])

/-- The tokens between a name and a body: parentheses are balanced, and braces and semicolons
stand inside of them. -/
inductive PlainHeader : List Token → Prop
  | nil : PlainHeader []
  | plain {k : Token} {ts : List Token} :
      k.kind ∉ [.openParen, .closeParen, .openBrace, .semicolon] → PlainHeader ts →
      PlainHeader (k :: ts)
  | group {ts : List Token} (g : Group .openParen .closeParen) :
      PlainHeader ts → PlainHeader (g.tokens ++ ts)

/-! ## Clauses -/

/-- The word `word` with a dotted name, a dot and a star if all members are meant, and a semicolon
that may be missing. -/
structure Clause (word : Text) where
  keyword : Fixed .word word
  static? : Option (Fixed .word "static")
  name : DottedName
  /-- A first segment that reads `static` would be taken for the modifier. -/
  first_ne_static : static? = none → name.first.text ≠ "static"
  star? : Option Star
  semicolon? : Option (Leaf .semicolon)

/-- The tokens after the first word of a clause. -/
def Clause.tail {word : Text} (c : Clause word) : List Token :=
  (c.static?.map Fixed.token).toList ++ (c.name.tokens ++
    ((c.star?.map Star.tokens).getD [] ++
      (c.semicolon?.map Leaf.token).toList))

def Clause.tokens {word : Text} (c : Clause word) : List Token := c.keyword.token :: c.tail

/-- A package has a name only. -/
structure PackageClause extends Clause "package" where
  static_eq : static? = none
  star_eq : star? = none

/-! ## Declarations -/

/-- What may stand before the keyword of a declaration. -/
inductive Attachment where
  | annotationUse (sign : Leaf .at) (name : DottedName) (named : name.first.text ≠ "interface")
      (arguments? : Option (Group .openParen .closeParen))
  | modifier (word : Leaf .word) (listed : word.text ∈ modifiers)

namespace Attachment

def tokens : Attachment → List Token
  | annotationUse sign name _ arguments? =>
    sign.token :: (name.tokens ++ (arguments?.map Group.tokens).getD [])
  | modifier word _ => [word.token]

def start : Attachment → Nat
  | annotationUse sign .. => sign.start
  | modifier word _ => word.start

def modifier? : Attachment → Option Token
  | annotationUse .. => none
  | modifier word _ => some word.token

end Attachment

/-- What says that a declaration follows, and of which kind. -/
inductive Keyword where
  | plain (word : Fixed .word "class")
  | interface (word : Fixed .word "interface")
  | enum (word : Fixed .word "enum")
  | annotationType (sign : Leaf .at) (word : Fixed .word "interface")

namespace Keyword

def kind : Keyword → ClassKind
  | plain _ => .plain
  | interface _ => .interface
  | enum _ => .enum
  | annotationType .. => .annotationType

def tokens : Keyword → List Token
  | plain word | interface word | enum word => [word.token]
  | annotationType sign word => [sign.token, word.token]

def start : Keyword → Nat
  | plain word | interface word | enum word => word.start
  | annotationType sign _ => sign.start

end Keyword

/-- How a declaration ends. -/
inductive Ending where
  | body (braces : Group .openBrace .closeBrace)
  | semicolon (sign : Leaf .semicolon)

namespace Ending

def tokens : Ending → List Token
  | body braces => braces.tokens
  | semicolon sign => [sign.token]

/-- Where the closing brace or the semicolon stops. -/
def stop : Ending → Nat
  | body braces => braces.closing.token.stop
  | semicolon sign => sign.token.stop

def bodySpan? : Ending → Option Span
  | body braces => some ⟨braces.opening.start, braces.closing.token.stop⟩
  | semicolon _ => none

end Ending

/-- A class, interface, enum or annotation type. -/
structure TypeDeclaration where
  attachments : List Attachment
  keyword : Keyword
  name : Leaf .word
  header : List Token
  plain : PlainHeader header
  ending : Ending

namespace TypeDeclaration

def tokens (d : TypeDeclaration) : List Token :=
  d.attachments.flatMap Attachment.tokens ++
    (d.keyword.tokens ++ d.name.token :: (d.header ++ d.ending.tokens))

def modifiers (d : TypeDeclaration) : List Token := d.attachments.filterMap Attachment.modifier?

/-- The last of the modifiers that name a level. -/
def level? (d : TypeDeclaration) : Option (Visibility × Span) :=
  (d.modifiers.filterMap fun m => (Visibility.ofKeyword? m.text).map (·, m.span)).getLast?

/-- What is to be found of the declaration. -/
def declaration (d : TypeDeclaration) : Declaration where
  name := d.name.text
  kind := d.keyword.kind
  visibility := (d.level?.map (·.1)).getD .package
  visibilitySpan? := d.level?.map (·.2)
  modifierStart := (d.modifiers.head?.map (·.start)).getD d.keyword.start
  span := ⟨(d.attachments.head?.map Attachment.start).getD d.keyword.start, d.ending.stop⟩
  nameSpan := d.name.token.span
  bodySpan? := d.ending.bodySpan?

end TypeDeclaration

/-- A source file. -/
structure CompilationUnit where
  package? : Option PackageClause
  imports : List (Clause "import")
  types : List TypeDeclaration

namespace CompilationUnit

def tokens (u : CompilationUnit) : List Token :=
  (u.package?.map fun p => p.tokens).getD [] ++
    (u.imports.flatMap Clause.tokens ++ u.types.flatMap TypeDeclaration.tokens)

def declarations (u : CompilationUnit) : List Declaration :=
  u.types.map TypeDeclaration.declaration

end CompilationUnit

end QuickFix.Source
