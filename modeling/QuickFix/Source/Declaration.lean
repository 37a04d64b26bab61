import QuickFix.Source.Token
import QuickFix.Name
import QuickFix.Symbol

/-!
# Declarations of a source file

A source file is read from its tokens: an optional package statement, then imports and class-like
declarations. `packageOf?` finds the package statement and `declarations` the declarations at the
top level, whatever stands between them. Brackets are matched by `closing?`; nothing inside a body
is looked at.
-/

namespace QuickFix

open Source

/-- The package statement of a source file. -/
structure PackageStatement where
  name : PackageName
  /-- From the word `package` to the semicolon, or to the name if there is none. -/
  span : Span
  deriving DecidableEq, Repr

/-- A class-like declaration at the top level of a source file. -/
structure Declaration where
  name : Text
  kind : ClassKind
  visibility : Visibility
  /-- The modifier that gives the visibility, if there is one. -/
  visibilitySpan? : Option Span
  /-- Where a visibility modifier can be put: the first modifier, or the keyword. -/
  modifierStart : Nat
  /-- All of the declaration, from its first annotation or modifier. -/
  span : Span
  nameSpan : Span
  /-- The body with its braces. -/
  bodySpan? : Option Span
  deriving DecidableEq, Repr

namespace Source

/-! ## Parts of statements -/

/-- The segments that follow the first one of a dotted name: its text and its last token so far, and
the tokens after the name. -/
def moreSegments (name : Text) (last : Token) : List Token → Text × Token × List Token
  | d :: w :: ts =>
    if d.kind = .dot ∧ w.kind = .word then moreSegments (name ++ ['.'] ++ w.text) w ts
    else (name, last, d :: w :: ts)
  | ts => (name, last, ts)

/-- The dotted name that the tokens start with: its text, its last token, and the tokens after
it. -/
def dottedName? : List Token → Option (Text × Token × List Token)
  | [] => none
  | w :: ts => if w.kind = .word then some (moreSegments w.text w ts) else none

/-- The token that closes a bracket whose opening token came just before, with `depth` more open
inside, and the tokens after it. -/
def closing? (opening closed : TokenKind) : Nat → List Token → Option (Token × List Token)
  | _, [] => none
  | depth, t :: ts =>
    if t.kind = opening then closing? opening closed (depth + 1) ts
    else if t.kind = closed then
      match depth with
      | 0 => some (t, ts)
      | depth + 1 => closing? opening closed depth ts
    else closing? opening closed depth ts

/-- The tokens after an annotation whose `@` came just before. -/
def annotationRest (ts : List Token) : List Token :=
  match dottedName? ts with
  | none => ts
  | some (_, _, t :: rest) =>
    if t.kind = .openParen then ((closing? .openParen .closeParen 0 rest).map (·.2)).getD []
    else t :: rest
  | some (_, _, []) => []

/-- The tokens without the first, if that satisfies `p`. -/
def skipIf (p : Token → Bool) : List Token → List Token
  | [] => []
  | t :: ts => if p t then ts else t :: ts

/-- The tokens without the dotted name that they start with, if any. -/
def skipName (ts : List Token) : List Token :=
  match dottedName? ts with
  | some (_, _, rest) => rest
  | none => ts

/-- The tokens without the dot and star that they start with, if any. -/
def skipStar : List Token → List Token
  | d :: s :: ts => if d.kind = .dot ∧ s.text = ['*'] then ts else d :: s :: ts
  | ts => ts

/-- The tokens after a package or import statement whose first word came just before. -/
def afterStatement (ts : List Token) : List Token :=
  skipIf (·.kind = .semicolon) (skipStar (skipName (skipIf (·.text = "static") ts)))

/-- The opening brace or semicolon that ends the header of a declaration, outside of parentheses,
and the tokens after it. -/
def headerEnd? : Nat → List Token → Option (Token × List Token)
  | _, [] => none
  | depth, t :: ts =>
    if t.kind = .openParen then headerEnd? (depth + 1) ts
    else if t.kind = .closeParen then headerEnd? (depth - 1) ts
    else if depth = 0 ∧ (t.kind = .openBrace ∨ t.kind = .semicolon) then some (t, ts)
    else headerEnd? depth ts

/-! ## What is left is at the end -/

theorem moreSegments_suffix (name : Text) (last : Token) (ts : List Token) :
    (moreSegments name last ts).2.2 <:+ ts := by
  fun_induction moreSegments name last ts with
  | case1 name last d w ts h ih => exact ih.trans (List.suffix_append [d, w] ts)
  | case2 => exact List.suffix_rfl
  | case3 => exact List.suffix_rfl

theorem dottedName?_suffix {w : Token} {ts rest : List Token} {name : Text} {last : Token}
    (h : dottedName? (w :: ts) = some (name, last, rest)) : rest <:+ ts := by
  simp only [dottedName?] at h
  split at h
  · have hs := moreSegments_suffix w.text w ts
    rwa [Option.some.inj h] at hs
  · cases h

theorem closing?_suffix {o c : TokenKind} {d : Nat} {ts rest : List Token} {k : Token}
    (h : closing? o c d ts = some (k, rest)) : k :: rest <:+ ts := by
  fun_induction closing? o c d ts with
  | case1 => cases h
  | case3 => cases h; exact List.suffix_rfl
  | case2 _ t ts _ ih | case4 t ts _ _ _ ih | case5 _ t ts _ _ ih =>
    exact (ih h).trans (List.suffix_cons t ts)

theorem afterClosing_suffix (o c : TokenKind) (d : Nat) (ts : List Token) :
    ((closing? o c d ts).map (·.2)).getD [] <:+ ts := by
  cases h : closing? o c d ts with
  | none => exact List.nil_suffix
  | some p => exact (List.suffix_cons p.1 p.2).trans (closing?_suffix h)

theorem headerEnd?_suffix {d : Nat} {ts rest : List Token} {k : Token}
    (h : headerEnd? d ts = some (k, rest)) : k :: rest <:+ ts := by
  fun_induction headerEnd? d ts with
  | case1 => cases h
  | case4 => cases h; exact List.suffix_rfl
  | case2 _ t ts _ ih | case3 _ t ts _ _ ih | case5 _ t ts _ _ _ ih =>
    exact (ih h).trans (List.suffix_cons t ts)

theorem annotationRest_suffix (ts : List Token) : annotationRest ts <:+ ts := by
  unfold annotationRest
  split
  · exact List.suffix_rfl
  · rename_i t rest h
    cases ts with
    | nil => cases h
    | cons w ts =>
      have hs := (dottedName?_suffix h).trans (List.suffix_cons w ts)
      split
      · exact ((afterClosing_suffix ..).trans (List.suffix_cons t rest)).trans hs
      · exact hs
  · exact List.nil_suffix

theorem skipIf_suffix (p : Token → Bool) (ts : List Token) : skipIf p ts <:+ ts := by
  fun_cases skipIf p ts
  · exact List.suffix_rfl
  · exact List.suffix_cons ..
  · exact List.suffix_rfl

theorem skipName_suffix (ts : List Token) : skipName ts <:+ ts := by
  unfold skipName
  split
  · rename_i h
    cases ts with
    | nil => cases h
    | cons w ts => exact (dottedName?_suffix h).trans (List.suffix_cons w ts)
  · exact List.suffix_rfl

theorem skipStar_suffix (ts : List Token) : skipStar ts <:+ ts := by
  fun_cases skipStar ts
  · exact List.suffix_append [_, _] _
  · exact List.suffix_rfl
  · exact List.suffix_rfl

theorem afterStatement_suffix (ts : List Token) : afterStatement ts <:+ ts :=
  (skipIf_suffix ..).trans <| (skipStar_suffix _).trans <|
    (skipName_suffix _).trans (skipIf_suffix ..)

/-! ## The package statement -/

/-- The package statement that the tokens start with, annotations before it skipped. -/
def packageStatement? : List Token → Option PackageStatement
  | [] => none
  | t :: ts =>
    if t.kind = .at then packageStatement? (annotationRest ts)
    else if t.isWord "package" then do
      let (name, last, rest) ← dottedName? ts
      let stop := match rest with
        | s :: _ => if s.kind = .semicolon then s.stop else last.stop
        | [] => last.stop
      return ⟨← PackageName.parse? name, ⟨t.start, stop⟩⟩
    else none
termination_by ts => ts.length
decreasing_by exact Nat.lt_succ_of_le (annotationRest_suffix ts).length_le

/-! ## Declarations -/

/-- What has been read of a declaration before its keyword. -/
structure Header where
  /-- Where its first annotation or modifier starts. -/
  start? : Option Nat
  /-- Where its first modifier starts. -/
  modifier? : Option Nat
  /-- The last visibility among its modifiers. -/
  visibility? : Option (Visibility × Span)

namespace Header

/-- Nothing read yet. -/
def empty : Header := ⟨none, none, none⟩

/-- Read an annotation that starts at `start`. -/
def addAnnotationAt (h : Header) (start : Nat) : Header :=
  { h with start? := h.start?.or (some start) }

/-- Read a modifier. -/
def addModifier (h : Header) (t : Token) : Header where
  start? := h.start?.or (some t.start)
  modifier? := h.modifier?.or (some t.start)
  visibility? := ((Visibility.ofKeyword? t.text).map (·, t.span)).or h.visibility?

end Header

/-- The words that may stand before the keyword of a declaration. -/
def modifiers : List Text :=
  ["public", "protected", "private", "abstract", "final", "static", "sealed", "strictfp"]

/-- The kind of declaration that a word introduces. -/
def keywordKind? (word : Text) : Option ClassKind :=
  if word = "class" then some .plain
  else if word = "interface" then some .interface
  else if word = "enum" then some .enum
  else none

/-- What follows the name of a declaration. -/
structure Tail where
  body? : Option Span
  /-- Where the declaration ends. -/
  stop : Nat
  rest : List Token

/-- The header and body that the tokens start with. A body without its closing brace, and a header
without a body or a semicolon, run to the end of the text, at offset `last`. -/
def tailOf (last : Nat) (ts : List Token) : Tail :=
  match headerEnd? 0 ts with
  | none => ⟨none, last, []⟩
  | some (t, ts) =>
    if t.kind = .openBrace then
      match closing? .openBrace .closeBrace 0 ts with
      | some (c, rest) => ⟨some ⟨t.start, c.stop⟩, c.stop, rest⟩
      | none => ⟨some ⟨t.start, last⟩, last, []⟩
    else ⟨none, t.stop, ts⟩

/-- The declaration whose keyword, at offset `keyword`, came just before the tokens, and the tokens
after it; `none` if no name follows. -/
def declaration? (last : Nat) (header : Header) (kind : ClassKind) (keyword : Nat) :
    List Token → Option (Declaration × List Token)
  | [] => none
  | name :: ts =>
    if name.kind = .word then
      let tail := tailOf last ts
      some ({
        name := name.text
        kind
        visibility := (header.visibility?.map (·.1)).getD .package
        visibilitySpan? := header.visibility?.map (·.2)
        modifierStart := header.modifier?.getD keyword
        span := ⟨header.start?.getD keyword, tail.stop⟩
        nameSpan := name.span
        bodySpan? := tail.body? }, tail.rest)
    else none

theorem tailOf_suffix (last : Nat) (ts : List Token) : (tailOf last ts).rest <:+ ts := by
  unfold tailOf
  split
  · exact List.nil_suffix
  · rename_i t us h
    have hs := (List.suffix_cons t us).trans (headerEnd?_suffix h)
    split
    · split
      · rename_i c rest hc
        exact ((List.suffix_cons c rest).trans (closing?_suffix hc)).trans hs
      · exact List.nil_suffix
    · exact hs

/-- A declaration is read off its header, its name, which comes first, and what follows that. -/
theorem declaration?_eq_some {last keyword : Nat} {header : Header} {kind : ClassKind}
    {ts rest : List Token} {d : Declaration}
    (h : declaration? last header kind keyword ts = some (d, rest)) :
    ∃ name us, ts = name :: us ∧ name.kind = .word ∧ rest = (tailOf last us).rest ∧ d = {
      name := name.text
      kind := kind
      visibility := (header.visibility?.map (·.1)).getD .package
      visibilitySpan? := header.visibility?.map (·.2)
      modifierStart := header.modifier?.getD keyword
      span := ⟨header.start?.getD keyword, (tailOf last us).stop⟩
      nameSpan := name.span
      bodySpan? := (tailOf last us).body? } := by
  cases ts with
  | nil => cases h
  | cons name us =>
    rw [declaration?] at h
    split at h
    · rename_i hname
      obtain ⟨rfl, rfl⟩ := Prod.mk.inj (Option.some.inj h)
      exact ⟨name, us, rfl, hname, rfl, rfl⟩
    · cases h

theorem declaration?_suffix {last keyword : Nat} {header : Header} {kind : ClassKind}
    {ts rest : List Token} {d : Declaration}
    (h : declaration? last header kind keyword ts = some (d, rest)) : rest <:+ ts.tail := by
  obtain ⟨name, us, rfl, -, rfl, -⟩ := declaration?_eq_some h
  exact tailOf_suffix last us

/-- What a token begins where a declaration may stand. -/
inductive Role where
  /-- A package or import statement. -/
  | statement
  /-- An annotation of the declaration that follows. -/
  | annotationUse
  /-- The two tokens `@interface`. -/
  | annotationType
  | modifier
  | keyword (kind : ClassKind)
  /-- A stretch in braces. -/
  | block
  | other
  deriving DecidableEq, Repr

/-- What the token `t`, followed by `ts`, begins; a keyword after a dot is the name of a property. -/
def role (afterDot : Bool) (t : Token) (ts : List Token) : Role :=
  if t.isWord "package" ∨ t.isWord "import" then .statement
  else if t.kind = .at then
    if (ts.head?.map (·.text)) = some ("interface" : Text) then .annotationType else .annotationUse
  else if t.kind = .word ∧ t.text ∈ modifiers then .modifier
  else match (if t.kind = .word ∧ !afterDot then keywordKind? t.text else none) with
    | some kind => .keyword kind
    | none => if t.kind = .openBrace then .block else .other

/-- Where a scan for declarations stands. -/
structure Scanner where
  /-- Was the token just before a dot? -/
  afterDot : Bool
  header : Header
  rest : List Token

namespace Scanner

/-- Nothing read yet. -/
def start (ts : List Token) : Scanner := ⟨false, .empty, ts⟩

/-- The declaration whose keyword, at offset `keyword`, came just before `ts`, and the state after
it; without a name the scan goes on at `ts`. -/
def finish (last : Nat) (header : Header) (kind : ClassKind) (keyword : Nat) (ts : List Token) :
    Option Declaration × Scanner :=
  match declaration? last header kind keyword ts with
  | some (d, rest) => (some d, start rest)
  | none => (none, start ts)

/-- Read what the next token begins: the declaration found, if one is complete, and the state
after it. -/
def step (last : Nat) (s : Scanner) : Option Declaration × Scanner :=
  match s.rest with
  | [] => (none, s)
  | t :: ts =>
    match role s.afterDot t ts with
    | .statement => (none, start (afterStatement ts))
    | .annotationUse => (none, ⟨false, s.header.addAnnotationAt t.start, annotationRest ts⟩)
    | .annotationType => finish last s.header .annotationType t.start ts.tail
    | .modifier => (none, ⟨false, s.header.addModifier t, ts⟩)
    | .keyword kind => finish last s.header kind t.start ts
    | .block => (none, start (((closing? .openBrace .closeBrace 0 ts).map (·.2)).getD []))
    | .other => (none, ⟨t.kind = .dot, .empty, ts⟩)

theorem finish_suffix (last keyword : Nat) (header : Header) (kind : ClassKind)
    (ts : List Token) : (finish last header kind keyword ts).2.rest <:+ ts := by
  unfold finish
  split
  · rename_i h; exact (declaration?_suffix h).trans (List.tail_suffix ts)
  · exact List.suffix_rfl

/-- A step reads the next token at least. -/
theorem step_suffix {last : Nat} {s : Scanner} {t : Token} {ts : List Token}
    (h : s.rest = t :: ts) : (s.step last).2.rest <:+ ts := by
  simp only [step, h]
  split
  · exact afterStatement_suffix ts
  · exact annotationRest_suffix ts
  · exact (finish_suffix ..).trans (List.tail_suffix ts)
  · exact List.suffix_rfl
  · exact finish_suffix ..
  · exact afterClosing_suffix ..
  · exact List.suffix_rfl

theorem length_step_lt {last : Nat} {s : Scanner} (h : s.rest ≠ []) :
    (s.step last).2.rest.length < s.rest.length := by
  obtain ⟨t, ts, hr⟩ := List.exists_cons_of_ne_nil h
  have hs : (s.step last).2.rest <:+ ts := step_suffix hr
  rw [hr]
  exact Nat.lt_succ_of_le hs.length_le

/-- The declarations that the scan finds from here on. -/
def run (last : Nat) (s : Scanner) : List Declaration :=
  if _h : s.rest = [] then [] else (s.step last).1.toList ++ run last (s.step last).2
termination_by s.rest.length
decreasing_by exact length_step_lt _h

end Scanner

end Source

/-- The package statement of a source text. -/
def packageOf? (t : Text) : Option PackageStatement := packageStatement? (tokens t)

/-- The class-like declarations at the top level of a source text, in order. -/
def declarations (t : Text) : List Declaration := (Scanner.start (tokens t)).run (Text.bytes t)

end QuickFix
