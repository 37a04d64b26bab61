import Mathlib.Data.List.Basic
import QuickFix.Project.State
import QuickFix.Proofs.Project.Rendering
import QuickFix.Proofs.Source.NameTokens
import QuickFix.Proofs.Text.Rows

/-!
# The text of a new class

A class that was created stands alone in its file, behind its package (`NewClass.text`).

* `NewClass.exists_found`: such a text declares the class and nothing else, whatever words its names
  are, and `NewClass.statedPackage_text`: it states the package;
* `NewClass.renderTemplate_default`: the default templates make such texts;
* `Declares.visibilityEdit_pub`, `Declares.constructorEdit_text`: opening the class up and giving it a
  constructor leads to such texts.
-/

namespace QuickFix

namespace Source

/-! ## One piece after the other -/

theorem place_word {w : Text} (hw : Text.isIdentifier w = true) {x : Char}
    (hx : Text.isIdentContinue x = false) (n : Nat) (b : Text) :
    place n (pieces (w ++ x :: b)) = ⟨.word, n, w⟩ :: place (n + Text.bytes w) (pieces (x :: b)) := by
  have hends : ∀ y ∈ (x :: b).head?, Text.isIdentContinue y = false := by
    intro y hy
    obtain rfl : x = y := Option.some.inj hy
    exact hx
  rw [(word_endsBefore_iff.2 ⟨hw, hends⟩).pieces_eq]
  rfl

theorem place_sign {c : Char} {kind : TokenKind} (h : punctuation? c = some kind) (n : Nat)
    (b : Text) :
    place n (pieces (c :: b)) = ⟨kind, n, [c]⟩ :: place (n + Text.bytes [c]) (pieces b) := by
  rw [pieces, firstPiece_punctuation h]
  rfl

theorem place_blank {c : Char} (h : Text.isAsciiBlank c = true) (n : Nat) (b : Text) :
    place n (pieces (c :: b)) = place (n + Text.bytes [c]) (pieces b) := by
  rw [pieces, firstPiece_blank h]
  rfl

theorem place_blanks {w : Text} (h : ∀ c ∈ w, Text.isAsciiBlank c = true) (n : Nat) (b : Text) :
    place n (pieces (w ++ b)) = place (n + Text.bytes w) (pieces b) := by
  induction w generalizing n with
  | nil => rfl
  | cons c w ih =>
    obtain ⟨hc, hw⟩ := List.forall_mem_cons.1 h
    rw [List.cons_append, place_blank hc, ih hw, Nat.add_assoc, ← Text.bytes_append]
    rfl

end Source

namespace Project

open Source

/-- A class in a file of its own. -/
structure NewClass where
  package : PackageName
  isPublic : Bool
  kind : ClassKind
  name : Text
  hasConstructor : Bool

namespace NewClass

/-- What comes before the declaration: the package and a blank line, but nothing for the default
package. -/
def lead (c : NewClass) : Text :=
  if c.package = .default then [] else "package " ++ c.package.text ++ "\n" ++ "\n"

/-- The modifier of the class. -/
def modifier (c : NewClass) : Text := if c.isPublic then "public " else []

/-- The lines of the constructor. -/
def constructor (c : NewClass) : Text :=
  if c.hasConstructor then "    public " ++ c.name ++ "() \x7b\n    \x7d\n" else []

/-- The declaration up to its body. -/
def head (c : NewClass) : Text := c.modifier ++ (c.kind.keyword ++ (" " ++ (c.name ++ " ")))

/-- The text of the file. -/
def text (c : NewClass) : Text := c.lead ++ (c.head ++ ("\x7b\n" ++ (c.constructor ++ "\x7d\n")))

end NewClass

/-- The declaration that is found of a class in a file of its own. -/
structure Declares (c : NewClass) (d : Declaration) : Prop where
  name : d.name = c.name
  kind : d.kind = c.kind
  visibility : d.visibility = if c.isPublic then .pub else .package
  visibilitySpan? : c.isPublic = false → d.visibilitySpan? = none
  modifierStart : d.modifierStart = Text.bytes c.lead
  start : d.span.start = Text.bytes c.lead
  body : ∃ body, d.bodySpan? = some body ∧ body.start = Text.bytes (c.lead ++ c.head)

/-! ## Its tokens -/

section

variable (c : NewClass)

theorem public_mem_modifiers : ("public" : Text) ∈ modifiers := by decide

/-- The modifier as it is read at an offset. -/
def NewClass.attachments (n : Nat) : List Attachment :=
  if c.isPublic then [.modifier ⟨n, "public"⟩ public_mem_modifiers] else []

theorem place_modifier (n : Nat) (b : Text) : place n (pieces (c.modifier ++ b)) =
    (c.attachments n).flatMap Attachment.tokens ++ place (n + Text.bytes c.modifier) (pieces b) := by
  unfold NewClass.modifier NewClass.attachments
  cases c.isPublic with
  | false => rfl
  | true =>
    have hsplit : (("public " : Text) ++ b) = ("public" : Text) ++ ' ' :: b := rfl
    simp only [if_true]
    rw [hsplit, place_word (by decide) (by decide), place_blank (by decide)]
    rfl

theorem exists_keyword (kind : ClassKind) (n : Nat) (b : Text) : ∃ k : Keyword, k.kind = kind ∧
    k.start = n ∧ place n (pieces (kind.keyword ++ ' ' :: b)) =
      k.tokens ++ place (n + Text.bytes kind.keyword + 1) (pieces b) := by
  have hword : ∀ (w : Text) (m : Nat), Text.isIdentifier w = true →
      place m (pieces (w ++ ' ' :: b)) =
        ⟨.word, m, w⟩ :: place (m + Text.bytes w + 1) (pieces b) := by
    intro w m hw
    rw [place_word hw (by decide), place_blank (by decide)]
    rfl
  cases kind with
  | plain => exact ⟨.plain ⟨n⟩, rfl, rfl, hword "class" n (by decide)⟩
  | interface => exact ⟨.interface ⟨n⟩, rfl, rfl, hword "interface" n (by decide)⟩
  | enum => exact ⟨.enum ⟨n⟩, rfl, rfl, hword "enum" n (by decide)⟩
  | annotationType =>
    refine ⟨.annotationType ⟨n, ['@']⟩ ⟨n + 1⟩, rfl, rfl, ?_⟩
    have hat : (ClassKind.annotationType.keyword ++ ' ' :: b : Text) =
        '@' :: (("interface" : Text) ++ ' ' :: b) := rfl
    have hwidth : n + Text.bytes ClassKind.annotationType.keyword + 1 =
        n + Text.bytes ['@'] + Text.bytes "interface" + 1 := rfl
    rw [hat, place_sign rfl, hword _ _ (by decide), hwidth]
    rfl

/-- The lines of the constructor are balanced. -/
theorem exists_constructor (hname : Text.isIdentifier c.name = true) (n : Nat) :
    ∃ inner m, Balanced .openBrace .closeBrace inner ∧
      ∀ b, place n (pieces (c.constructor ++ b)) = inner ++ place m (pieces b) := by
  unfold NewClass.constructor
  cases c.hasConstructor with
  | false => exact ⟨[], n, .nil, fun b => rfl⟩
  | true =>
    have hindent : ∀ y ∈ ("    " : Text), Text.isAsciiBlank y = true :=
      List.all_eq_true.1 (by decide)
    have hbreak : ∀ y ∈ ("\n    " : Text), Text.isAsciiBlank y = true :=
      List.all_eq_true.1 (by decide)
    let o₁ := n + 4
    let o₂ := o₁ + 7
    let o₃ := o₂ + Text.bytes c.name
    refine ⟨[⟨.word, o₁, "public"⟩, ⟨.word, o₂, c.name⟩, ⟨.openParen, o₃, ['(']⟩,
      ⟨.closeParen, o₃ + 1, [')']⟩, ⟨.openBrace, o₃ + 3, ['\x7b']⟩, ⟨.closeBrace, o₃ + 9, ['\x7d']⟩],
      o₃ + 11, ?_, fun b => ?_⟩
    · have hbraces : Balanced .openBrace .closeBrace
          ([⟨.openBrace, o₃ + 3, ['\x7b']⟩, ⟨.closeBrace, o₃ + 9, ['\x7d']⟩]) :=
        @Balanced.group _ _ _ _ [] [] rfl .nil rfl .nil
      exact .plain nofun nofun (.plain nofun nofun (.plain nofun nofun (.plain nofun nofun hbraces)))
    · have hsplit : (if true = true then
            ("    public " : Text) ++ c.name ++ "() \x7b\n    \x7d\n" else []) ++ b =
          ("    " : Text) ++ (("public" : Text) ++ ' ' :: (c.name ++ '(' :: ')' :: ' ' ::
            '\x7b' :: (("\n    " : Text) ++ '\x7d' :: '\n' :: b))) := by
        rw [if_pos rfl, List.append_assoc, List.append_assoc]
        rfl
      rw [hsplit, place_blanks hindent, place_word (by decide) (by decide), place_blank (by decide),
        place_word hname (by decide), place_sign rfl, place_sign rfl, place_blank (by decide),
        place_sign rfl, place_blanks hbreak, place_sign rfl, place_blank (by decide)]
      rfl

/-- The body is a group of braces. -/
theorem exists_body (hname : Text.isIdentifier c.name = true) (n : Nat) :
    ∃ braces : Group .openBrace .closeBrace, braces.opening.start = n ∧
      place n (pieces ("\x7b\n" ++ (c.constructor ++ "\x7d\n"))) = braces.tokens := by
  have hend : ∀ m, place m (pieces ("\x7d\n" : Text)) = [⟨.closeBrace, m, ['\x7d']⟩] := by
    intro m
    have hsplit : ("\x7d\n" : Text) = ['\x7d', '\n'] := by decide
    rw [hsplit, place_sign rfl, place_blank (by decide), pieces]
    rfl
  obtain ⟨inner, m, hinner, hread⟩ := exists_constructor c hname (n + 2)
  refine ⟨⟨⟨n, ['\x7b']⟩, inner, hinner, ⟨m, ['\x7d']⟩⟩, rfl, ?_⟩
  have hsplit : (("\x7b\n" : Text) ++ (c.constructor ++ "\x7d\n")) =
      '\x7b' :: '\n' :: (c.constructor ++ "\x7d\n") := rfl
  rw [hsplit, place_sign rfl, place_blank (by decide)]
  exact congrArg _ ((hread _).trans (congrArg (inner ++ ·) (hend m)))

/-- The declaration is read to its end. -/
theorem exists_type (hname : Text.isIdentifier c.name = true) (n : Nat) :
    ∃ (d : TypeDeclaration) (braces : Group .openBrace .closeBrace),
      place n (pieces (c.head ++ ("\x7b\n" ++ (c.constructor ++ "\x7d\n")))) = d.tokens ∧
      d.attachments = c.attachments n ∧ d.keyword.kind = c.kind ∧
      d.keyword.start = n + Text.bytes c.modifier ∧ d.name.text = c.name ∧ d.header = [] ∧
      d.ending = .body braces ∧ braces.opening.start = n + Text.bytes c.head := by
  let body : Text := "\x7b\n" ++ (c.constructor ++ "\x7d\n")
  let o := n + Text.bytes c.modifier
  obtain ⟨keyword, hkind, hstart, hkeyword⟩ := exists_keyword c.kind o (c.name ++ ' ' :: body)
  obtain ⟨braces, hopening, hbraces⟩ := exists_body c hname (n + Text.bytes c.head)
  let d : TypeDeclaration := ⟨c.attachments n, keyword,
    ⟨o + Text.bytes c.kind.keyword + 1, c.name⟩, [], .nil, .body braces⟩
  have hsplit : c.head ++ body = c.modifier ++ (c.kind.keyword ++ ' ' :: (c.name ++ ' ' :: body)) := by
    unfold NewClass.head
    simp only [List.append_assoc]
    rfl
  have hwidth : n + Text.bytes c.head =
      o + Text.bytes c.kind.keyword + 1 + Text.bytes c.name + Text.bytes [' '] := by
    have hspace : Text.bytes (" " : Text) = 1 ∧ Text.bytes [' '] = 1 := by decide
    unfold NewClass.head
    simp only [Text.bytes_append, hspace, o]
    omega
  refine ⟨d, braces, ?_, rfl, hkind, hstart, rfl, rfl, rfl, hopening⟩
  show place n (pieces (c.head ++ body)) = d.tokens
  rw [hsplit, place_modifier, hkeyword, place_word hname (by decide), place_blank (by decide), ← hwidth,
    hbraces]
  rfl

/-- The names of a class are such that its text can be read. -/
structure NewClass.IsNamed : Prop where
  name : Text.isIdentifier c.name = true
  package : c.package = .default ∨ Text.isDotted c.package.text = true
  /-- Behind the word `package` this one would be taken for a modifier. -/
  notStatic : c.package.segments.head? ≠ some "static"

theorem declares_declaration {d : TypeDeclaration} {braces : Group .openBrace .closeBrace}
    (hattachments : d.attachments = c.attachments (Text.bytes c.lead))
    (hkind : d.keyword.kind = c.kind)
    (hstart : d.keyword.start = Text.bytes c.lead + Text.bytes c.modifier)
    (hname : d.name.text = c.name) (hending : d.ending = .body braces)
    (hopening : braces.opening.start = Text.bytes c.lead + Text.bytes c.head) :
    Declares c d.declaration := by
  have hpublic : Visibility.ofKeyword? "public" = some .pub := by decide
  have hnone : c.isPublic = false → d.attachments = [] ∧ d.keyword.start = Text.bytes c.lead := by
    intro h
    rw [hattachments, hstart]
    simp [NewClass.attachments, NewClass.modifier, h]
  have hmodifiers : d.modifiers =
      if c.isPublic then [⟨.word, Text.bytes c.lead, "public"⟩] else [] := by
    rw [TypeDeclaration.modifiers, hattachments]
    unfold NewClass.attachments
    cases c.isPublic <;> rfl
  have hlevel : d.level? = if c.isPublic then some (.pub, ⟨Text.bytes c.lead,
      (⟨.word, Text.bytes c.lead, "public"⟩ : Token).stop⟩) else none := by
    rw [TypeDeclaration.level?, hmodifiers]
    cases c.isPublic with
    | false => rfl
    | true =>
      simp only [if_true, List.filterMap_cons, hpublic, Option.map_some, List.filterMap_nil]
      rfl
  refine ⟨hname, hkind, ?_, fun h => ?_, ?_, ?_, ?_⟩
  · show (d.level?.map (·.1)).getD .package = _
    rw [hlevel]
    cases c.isPublic <;> rfl
  · show d.level?.map (·.2) = none
    rw [hlevel, h]
    rfl
  · show (d.modifiers.head?.map (·.start)).getD d.keyword.start = _
    rw [hmodifiers]
    cases h : c.isPublic with
    | false => exact (hnone h).2
    | true => rfl
  · show (d.attachments.head?.map Attachment.start).getD d.keyword.start = _
    cases h : c.isPublic with
    | false => rw [(hnone h).1]; exact (hnone h).2
    | true =>
      rw [hattachments]
      simp [NewClass.attachments, h, Attachment.start]
  · refine ⟨⟨braces.opening.start, braces.closing.token.stop⟩, ?_, ?_⟩
    · show d.ending.bodySpan? = _
      rw [hending]
      rfl
    · rw [hopening, Text.bytes_append]

/-- A package whose first segment is not `static` does not start with that word. -/
theorem first_ne_static {name : DottedName} {p : PackageName} (hp : Text.isDotted p.text = true)
    (htext : name.text = p.text) (hstatic : p.segments.head? ≠ some "static") :
    name.first.text ≠ "static" := by
  intro h
  have hdot : '.' ∉ ("static" : Text) := by decide
  apply hstatic
  rw [PackageName.segments_eq hp, ← htext, DottedName.text, h]
  cases name.more with
  | nil => rw [List.flatMap_nil, List.append_nil, List.splitOn_eq_singleton hdot]; rfl
  | cons s more => rw [List.flatMap_cons, List.cons_append, List.splitOn_append_cons_self_of_not_mem hdot]; rfl

/-- The declaration of the text. -/
def NewClass.declarationText : Text := c.head ++ ("\x7b\n" ++ (c.constructor ++ "\x7d\n"))

theorem NewClass.text_of_default (h : c.package = .default) : c.text = c.declarationText := by
  rw [text, lead, if_pos h]
  rfl

theorem NewClass.text_of_ne_default (h : c.package ≠ .default) :
    c.text = packageLine c.package ++ '\n' :: c.declarationText ∧
      Text.bytes c.lead = Text.bytes (packageLine c.package) + 1 := by
  rw [text, lead, if_neg h]
  refine ⟨?_, Text.bytes_append ..⟩
  rw [List.append_assoc]
  rfl

/-- The text is read as a unit of its package and its declaration. -/
theorem exists_package_clause (hc : c.IsNamed) {d : TypeDeclaration}
    (hd : place (Text.bytes c.lead) (pieces c.declarationText) = d.tokens) :
    ∃ package?, tokens c.text = (CompilationUnit.mk package? [] [d]).tokens := by
  have hnone : (CompilationUnit.mk none [] [d]).tokens = d.tokens := List.append_nil d.tokens
  by_cases h : c.package = .default
  · refine ⟨none, ?_⟩
    rw [hnone, c.text_of_default h, ← hd, NewClass.lead, if_pos h]
    rfl
  · have hp := hc.package.resolve_left h
    obtain ⟨htext, hwidth⟩ := c.text_of_ne_default h
    obtain ⟨name, hname, htokens⟩ := tokens_packageLine hp ('\n' :: c.declarationText)
    have hfirst := first_ne_static hp hname hc.notStatic
    let clause : PackageClause := ⟨⟨⟨0⟩, none, name, fun _ => hfirst, none, none⟩, rfl, rfl⟩
    refine ⟨some clause, ?_⟩
    have hrest : (tokens ('\n' :: c.declarationText)).map
        (Token.shift (Text.bytes (packageLine c.package))) = d.tokens := by
      have hbreak : Text.isAsciiBlank '\n' = true := by decide
      rw [← place_eq_map, place_blank hbreak, ← hd, hwidth]
      rfl
    have hclause : clause.tokens = ⟨.word, 0, "package"⟩ :: (name.tokens ++ []) := rfl
    rw [htext, htokens, hrest]
    show _ = clause.tokens ++ (CompilationUnit.mk none [] [d]).tokens
    rw [hnone, hclause, List.append_nil, List.cons_append]

/-- The declaration `d` is all that the text of the class declares. -/
structure Found (c : NewClass) (d : Declaration) : Prop extends Declares c d where
  declarations_eq : declarations c.text = [d]

theorem Found.mem {c : NewClass} {d : Declaration} (hd : Found c d) : d ∈ declarations c.text := by
  rw [hd.declarations_eq]
  exact List.mem_singleton_self d

/-- **What such a text declares**: the class, and nothing else. -/
theorem NewClass.exists_found (hc : c.IsNamed) : ∃ d, Found c d := by
  obtain ⟨d, braces, htokens, hattachments, hkind, hstart, hname, -, hending, hopening⟩ :=
    exists_type c hc.name (Text.bytes c.lead)
  have hd := declares_declaration c hattachments hkind hstart hname hending hopening
  obtain ⟨package?, hunit⟩ := exists_package_clause c hc htokens
  refine ⟨_, hd, ?_⟩
  rw [declarations, hunit, (Scanner.runs_unit _ _).run_eq, Scanner.run_nil rfl, List.append_nil]
  rfl

/-- A declaration without a header states no package, even if it is called so. -/
theorem packageStatement?_type {d : TypeDeclaration} {braces : Group .openBrace .closeBrace}
    {n : Nat} (hattachments : d.attachments = c.attachments n) (hheader : d.header = [])
    (hending : d.ending = .body braces) : packageStatement? d.tokens = none := by
  have hword : ∀ (w : Token) (ts : List Token), w.kind = .word → w.text ≠ "package" →
      packageStatement? (w :: ts) = none := by
    intro w ts hw hne
    have hat : w.kind ≠ .at := by rw [hw]; decide
    have hnot : ¬w.isWord "package" = true := by
      rw [Token.isWord, Bool.and_eq_true, decide_eq_true_eq, decide_eq_true_eq]
      exact fun h => hne h.2
    rw [packageStatement?, if_neg hat, if_neg hnot]
  rw [TypeDeclaration.tokens, hattachments, hheader, hending]
  unfold NewClass.attachments
  cases c.isPublic with
  | true =>
    have hne : ("public" : Text) ≠ "package" := by decide
    exact hword ⟨.word, n, "public"⟩ _ rfl hne
  | false =>
    have hne : ("class" : Text) ≠ "package" ∧ ("interface" : Text) ≠ "package" ∧
        ("enum" : Text) ≠ "package" := by decide
    show packageStatement? (d.keyword.tokens ++ d.name.token :: braces.tokens) = none
    cases d.keyword with
    | plain w => exact hword w.token _ rfl hne.1
    | interface w => exact hword w.token _ rfl hne.2.1
    | enum w => exact hword w.token _ rfl hne.2.2
    | annotationType sign w =>
      -- the word `interface` is read as the name of an annotation
      have hrest : annotationRest (w.token :: d.name.token :: braces.tokens) =
          d.name.token :: braces.tokens := by
        have hn : dottedName? (w.token :: d.name.token :: braces.tokens) =
            some (("interface" : Text), w.token, d.name.token :: braces.tokens) := rfl
        rw [annotationRest, hn]
        rfl
      show packageStatement? (sign.token :: (w.token :: d.name.token :: braces.tokens)) = none
      rw [packageStatement?_at _ rfl, hrest]
      by_cases hname : d.name.text = "package"
      · have hbehind : packageBehind? d.name.token.start braces.tokens = none := rfl
        have hpackage : d.name.token.isWord "package" = true := by
          rw [Token.isWord, Bool.and_eq_true]
          exact ⟨rfl, decide_eq_true hname⟩
        rw [packageStatement?_word _ hpackage, hbehind]
      · exact hword _ _ rfl hname

/-- **The package that such a text states** is that of the class. -/
theorem NewClass.statedPackage_text (hc : c.IsNamed) : statedPackage c.text = c.package := by
  by_cases h : c.package = .default
  · obtain ⟨d, braces, htokens, hattachments, -, -, -, hheader, hending, -⟩ := exists_type c hc.name 0
    have hnone : packageOf? c.text = none := by
      rw [packageOf?, c.text_of_default h]
      exact (congrArg packageStatement? htokens).trans
        (packageStatement?_type c hattachments hheader hending)
    rw [statedPackage, hnone, h]
    rfl
  · obtain ⟨d, -, htokens, -⟩ := exists_type c hc.name (0 + Text.bytes ['\n'])
    have hrest : ∀ k ∈ (tokens ('\n' :: c.declarationText)).head?, k.kind ≠ .dot := by
      have hbreak : Text.isAsciiBlank '\n' = true := by decide
      have htokens : tokens ('\n' :: c.declarationText) = d.tokens :=
        (place_blank hbreak 0 c.declarationText).trans htokens
      intro k hk
      obtain ⟨ks, hks⟩ := List.head?_eq_some_iff.1 (htokens ▸ hk)
      exact d.starts.ne hks (by decide) (by decide)
    rw [statedPackage, (c.text_of_ne_default h).1,
      packageOf?_line (hc.package.resolve_left h) hrest]
    rfl

end

/-! ## What the default templates make -/

/-- The default template for a kind of class. -/
def defaultTemplate (kind : ClassKind) : Text :=
  "package " ++ placeholder "PACKAGE_NAME" ++ "\n\n" ++ kind.keyword ++ " " ++ placeholder "NAME" ++
    " \x7b\n\x7d\n"

theorem lookup_defaultTemplates (kind : ClassKind) :
    defaultTemplates.lookup (Templates.default.get kind) = some (defaultTemplate kind) := by
  cases kind <;> decide

/-- What comes behind the name of the package. -/
def afterPackage (kind : ClassKind) (name : Text) : Text :=
  "\n\n" ++ (kind.keyword ++ (" " ++ (name ++ " \x7b\n\x7d\n")))

/-- There is no place for the package behind it. -/
theorem around?_afterPackage (kind : ClassKind) {name : Text} (h : Text.isIdentifier name = true) :
    Text.around? (placeholder "PACKAGE_NAME") (afterPackage kind name) = none := by
  rw [Text.around?_eq_none_iff]
  rintro ⟨x, y, hxy⟩
  -- both have one opening brace, with other text behind it
  let u : Text := "\n\n" ++ (kind.keyword ++ (" " ++ (name ++ [' '])))
  have hu : '\x7b' ∉ u := by
    have hwords : '\x7b' ∉ ("\n\n" : Text) ∧ '\x7b' ∉ kind.keyword ∧ '\x7b' ∉ (" " : Text) := by
      cases kind <;> decide
    simp only [u, List.mem_append, List.mem_singleton, hwords, not_mem_of_isIdentifier h (c := '\x7b') (by decide),
      false_or]
    decide
  have hv : '\x7b' ∉ ['\n', '\x7d', '\n'] := by decide
  have hafter : afterPackage kind name = u ++ '\x7b' :: ['\n', '\x7d', '\n'] := by
    simp only [afterPackage, u, List.append_assoc]
    rfl
  have hplace : x ++ placeholder "PACKAGE_NAME" ++ y =
      (x ++ ['$']) ++ '\x7b' :: ("PACKAGE_NAME\x7d" ++ y) := by
    rw [List.append_assoc, List.append_assoc]
    rfl
  rw [hafter, hplace] at hxy
  obtain ⟨-, -, hrest⟩ := (List.append_cons_inj_of_notMem hu hv).1 hxy.symm
  cases hrest

/-- The values put into a template. -/
theorem substitute_default (kind : ClassKind) {name : Text} (h : Text.isIdentifier name = true)
    (package : PackageName) (fileName template : Text) :
    substitute (defaultTemplate kind) ⟨name, fileName, template, package⟩ =
      "package " ++ (package.text ++ afterPackage kind name) := by
  have hname : Text.around? (placeholder "NAME") (defaultTemplate kind) =
      some ("package " ++ placeholder "PACKAGE_NAME" ++ "\n\n" ++ kind.keyword ++ " ",
        (" \x7b\n\x7d\n" : Text)) := by
    cases kind <;> decide
  have hnone : Text.around? (placeholder "NAME") " \x7b\n\x7d\n" = none := by decide
  have hplace : ∀ b, Text.around? (placeholder "PACKAGE_NAME")
      (("package " : Text) ++ (placeholder "PACKAGE_NAME" ++ b)) = some (("package " : Text), b) := by
    intro b
    have hempty : Text.around? (placeholder "PACKAGE_NAME")
        (("package " : Text) ++ (placeholder "PACKAGE_NAME" ++ [])) =
          some (("package " : Text), []) := by decide
    exact Text.around?_append b hempty
  have hne : placeholder "NAME" ≠ [] ∧ placeholder "PACKAGE_NAME" ≠ [] := by decide
  rw [substitute, Text.replaceAll_of_around? _ hne.1 hname, Text.replaceAll_eq_self _ hnone]
  have hsplit : "package " ++ placeholder "PACKAGE_NAME" ++ "\n\n" ++ kind.keyword ++ " " ++
      (name ++ " \x7b\n\x7d\n") =
        ("package " : Text) ++ (placeholder "PACKAGE_NAME" ++ afterPackage kind name) := by
    simp only [afterPackage, List.append_assoc]
  show Text.replaceAll _ package.text _ = _
  rw [hsplit, Text.replaceAll_of_around? _ hne.2 (hplace _),
    Text.replaceAll_eq_self _ (around?_afterPackage kind h)]

theorem blank_not_mem_of_isDotted {c : Char} {t : Text} (hc : Text.isBlank c = true)
    (ht : Text.isDotted t = true) : c ∉ t := by
  intro hm
  rw [Text.isBlank_of_isDotted ht c hm] at hc
  cases hc

/-- A package line with a package is kept. -/
theorem isPackageStub_line {p : PackageName} (hp : Text.isDotted p.text = true) :
    isPackageStub ("package " ++ p.text ++ ['\n']) = false := by
  refine Bool.eq_false_iff.2 fun h => ?_
  have hself : p.text.filter (fun c => !Text.isBlank c) = p.text :=
    List.filter_eq_self.2 fun c hc => by rw [Text.isBlank_of_isDotted hp c hc]; rfl
  have hfilter : ("package " ++ p.text ++ ['\n'] : Text).filter (fun c => !Text.isBlank c) =
      ("package" : Text) ++ p.text := by
    have hword : ("package " : Text).filter (fun c => !Text.isBlank c) = "package" := by decide
    have hbreak : ['\n'].filter (fun c => !Text.isBlank c) = [] := by decide
    rw [List.filter_append, List.filter_append, hself, hword, hbreak, List.append_nil]
  have hdot : Text.isDotted [] = false ∧ Text.isDotted [';'] = false := by decide
  have hsplit : ("package;" : Text) = ("package" : Text) ++ [';'] := by decide
  rcases filter_of_isPackageStub h with hrow | hrow
  · rw [hfilter] at hrow
    rw [List.append_cancel_left (hrow.trans (List.append_nil _).symm), hdot.1] at hp
    cases hp
  · rw [hfilter, hsplit] at hrow
    rw [List.append_cancel_left hrow, hdot.2] at hp
    cases hp

/-- **What a default template makes** is the text of the class, which is neither public nor has a
constructor yet. -/
theorem NewClass.renderTemplate_default {package : PackageName} {name : Text} (kind : ClassKind)
    (hp : package = .default ∨ Text.isDotted package.text = true)
    (hname : Text.isIdentifier name = true) (fileName template : Text) :
    renderTemplate (defaultTemplate kind) ⟨name, fileName, template, package⟩ =
      (NewClass.mk package false kind name false).text := by
  let row₁ : Text := "package " ++ package.text
  let row₃ : Text := kind.keyword ++ (" " ++ (name ++ (" \x7b" : Text)))
  have hrows : Text.rows (("package " : Text) ++ (package.text ++ afterPackage kind name)) =
      [row₁ ++ ['\n'], ['\n'], row₃ ++ ['\n'], ("\x7d" : Text) ++ ['\n']] := by
    have hline : ∀ t : Text, '\n' ∉ t → ∀ b, Text.rows (t ++ ['\n'] ++ b) =
        (t ++ ['\n']) :: Text.rows b := by
      intro t ht b
      rw [Text.rows_append (by simp), Text.rows_line ht]
      rfl
    have hblank : Text.isBlank '\n' = true := by decide
    have h₁ : '\n' ∉ row₁ := by
      have hword : '\n' ∉ ("package " : Text) := by decide
      have hpackage : '\n' ∉ package.text := by
        rcases hp with rfl | hp
        · exact List.not_mem_nil
        · exact blank_not_mem_of_isDotted hblank hp
      simp only [row₁, List.mem_append, hword, hpackage, or_self, not_false_eq_true]
    have h₃ : '\n' ∉ row₃ := by
      have hwords : '\n' ∉ kind.keyword ∧ '\n' ∉ (" " : Text) ∧ '\n' ∉ (" \x7b" : Text) := by
        cases kind <;> decide
      have hself := blank_not_mem_of_isDotted hblank (Text.isDotted_of_isIdentifier hname)
      simp only [row₃, List.mem_append, hwords, hself, or_self, not_false_eq_true]
    have hsplit : (("package " : Text) ++ (package.text ++ afterPackage kind name)) =
        row₁ ++ ['\n'] ++ ([] ++ ['\n'] ++ (row₃ ++ ['\n'] ++ (("\x7d" : Text) ++ ['\n'] ++ []))) := by
      simp only [afterPackage, row₁, row₃, List.append_assoc]
      rfl
    rw [hsplit, hline _ h₁, hline _ (by decide), hline _ h₃, hline _ (by decide)]
    rfl
  have hbreak : isPackageStub ['\n'] = false ∧ (Text.trim ['\n']).isEmpty = true := by decide
  have hlast : isPackageStub (("\x7d" : Text) ++ ['\n']) = false := by decide
  have hhead : isPackageStub (row₃ ++ ['\n']) = false := by
    have hbrace : '\x7b' ∈ (" \x7b" : Text) := by decide
    refine isPackageStub_of_brace (List.mem_append_left _ ?_)
    simp only [row₃, List.mem_append, hbrace, or_true]
  have hkept : keptRows false [row₃ ++ ['\n'], ("\x7d" : Text) ++ ['\n']] =
      [row₃ ++ ['\n'], ("\x7d" : Text) ++ ['\n']] := by
    simp only [keptRows, hhead, hlast, Bool.false_and, Bool.false_eq_true, if_false]
  have htext : (NewClass.mk package false kind name false).text =
      (NewClass.mk package false kind name false).lead ++
        (row₃ ++ ['\n'] ++ (("\x7d" : Text) ++ ['\n'])) := by
    simp only [NewClass.text, NewClass.head, NewClass.modifier, NewClass.constructor, row₃,
      List.append_assoc]
    rfl
  rw [renderTemplate, substitute_default kind hname, hrows, htext]
  by_cases h : package = .default
  · -- the first line is left without a package, and goes with the blank line behind it
    have hstub : isPackageStub (row₁ ++ ['\n']) = true := by
      subst h
      decide
    have hdrop : keptRows false [row₁ ++ ['\n'], ['\n'], row₃ ++ ['\n'], ("\x7d" : Text) ++ ['\n']] =
        keptRows false [row₃ ++ ['\n'], ("\x7d" : Text) ++ ['\n']] := by
      rw [keptRows, if_pos hstub, keptRows, hbreak.1, hbreak.2]
      rfl
    rw [hdrop, hkept, NewClass.lead, if_pos h]
    simp
  · have hstub := isPackageStub_line (hp.resolve_left h)
    have hkeep : keptRows false [row₁ ++ ['\n'], ['\n'], row₃ ++ ['\n'], ("\x7d" : Text) ++ ['\n']] =
        (row₁ ++ ['\n']) :: ['\n'] ::
          keptRows false [row₃ ++ ['\n'], ("\x7d" : Text) ++ ['\n']] := by
      rw [keptRows, hstub, keptRows, hbreak.1]
      rfl
    rw [hkeep, hkept, NewClass.lead, if_neg h]
    simp only [List.flatten_cons, List.flatten_nil, List.append_nil, row₁, List.append_assoc]
    rfl

/-! ## What edits of the class lead to -/

namespace Declares

variable {c : NewClass} {d : Declaration}

/-- Opening the class up puts the modifier before it. -/
theorem visibilityEdit_pub (hd : Declares c d) (hc : c.isPublic = false) :
    ∃ e, d.visibilityEdit .pub c.text = .ok (some e) ∧
      e.apply c.text = .ok { c with isPublic := true }.text := by
  have hlevel : d.visibility ≠ .pub := by
    rw [hd.visibility, hc]
    decide
  refine ⟨.insert d.modifierStart ("public" ++ " "), ?_, ?_⟩
  · rw [Declaration.visibilityEdit, if_neg hlevel, hd.visibilitySpan? hc]
    rfl
  · have hhead : { c with isPublic := true }.head = ("public" ++ " ") ++ c.head := by
      simp only [NewClass.head, NewClass.modifier, hc, if_true, Bool.false_eq_true, if_false,
        List.nil_append, List.append_assoc]
      rfl
    have htext : { c with isPublic := true }.text = c.lead ++ ("public" ++ " ") ++
        (c.head ++ ("\x7b\n" ++ (c.constructor ++ "\x7d\n"))) := by
      rw [NewClass.text, hhead]
      simp only [List.append_assoc]
      rfl
    rw [htext, hd.modifierStart]
    exact Edit.insert_apply ..

theorem return_not_mem_text (hc : c.IsNamed) : '\r' ∉ c.text := by
  have hblank : Text.isBlank '\r' = true := by decide
  have hname := blank_not_mem_of_isDotted hblank (Text.isDotted_of_isIdentifier hc.name)
  have hlead : '\r' ∉ c.lead := by
    unfold NewClass.lead
    split
    · exact List.not_mem_nil
    · rename_i h
      have hwords : '\r' ∉ ("package " : Text) ∧ '\r' ∉ ("\n" : Text) := by decide
      have hpackage := blank_not_mem_of_isDotted hblank (hc.package.resolve_left h)
      simp only [List.mem_append, hwords, hpackage, or_self, not_false_eq_true]
  have hhead : '\r' ∉ c.head := by
    have hwords : '\r' ∉ ("public " : Text) ∧ '\r' ∉ (" " : Text) := by decide
    have hkeyword : '\r' ∉ c.kind.keyword := by cases c.kind <;> decide
    have hmodifier : '\r' ∉ c.modifier := by
      unfold NewClass.modifier
      split
      · exact hwords.1
      · exact List.not_mem_nil
    simp only [NewClass.head, List.mem_append, hwords, hkeyword, hmodifier, hname, or_self,
      not_false_eq_true]
  have hconstructor : '\r' ∉ c.constructor := by
    have hwords : '\r' ∉ ("    public " : Text) ∧ '\r' ∉ ("() \x7b\n    \x7d\n" : Text) := by
      decide
    unfold NewClass.constructor
    split
    · simp only [List.mem_append, hwords, hname, or_self, not_false_eq_true]
    · exact List.not_mem_nil
  have hwords : '\r' ∉ ("\x7b\n" : Text) ∧ '\r' ∉ ("\x7d\n" : Text) := by decide
  simp only [NewClass.text, List.mem_append, hlead, hhead, hconstructor, hwords, or_self,
    not_false_eq_true]

theorem lineEnd_text (hc : c.IsNamed) : lineEnd c.text = ['\n'] := by
  have hnone : Text.contains c.text ['\r', '\n'] = false := by
    rw [Text.contains, Text.around?_eq_none_iff.2]
    · rfl
    · exact fun hi => return_not_mem_text hc (hi.subset List.mem_cons_self)
  rw [lineEnd, hnone]
  rfl

theorem lastIndent_lead (c : NewClass) : lastIndent c.lead = [] := by
  unfold NewClass.lead
  split
  · rfl
  · have hlast : ("package " ++ c.package.text ++ "\n" ++ "\n" : Text).reverse =
        '\n' :: ("package " ++ c.package.text ++ "\n" : Text).reverse := List.reverse_append ..
    rw [lastIndent, hlast]
    rfl

/-- Giving it a constructor puts that at the top of its body. -/
theorem constructorEdit_text (hd : Declares c d) (hc : c.IsNamed) (hnone : c.hasConstructor = false) :
    ∃ e, d.constructorEdit c.text = .ok (some e) ∧
      e.apply c.text = .ok { c with hasConstructor := true }.text := by
  obtain ⟨body, hbody, hopening⟩ := hd.body
  have hconstructor : c.constructor = [] := by simp [NewClass.constructor, hnone]
  have hlines : Declaration.constructorText c.name "    " ['\n'] =
      "    public " ++ c.name ++ "() \x7b\n    \x7d\n" := by
    have hsplit : ("() \x7b\n    \x7d\n" : Text) =
        "() \x7b" ++ (['\n'] ++ ("    " ++ ("\x7d" ++ ['\n']))) := by decide
    have hpublic : ("    public " : Text) = "    " ++ "public " := by decide
    rw [hsplit, hpublic]
    simp only [Declaration.constructorText, List.append_assoc]
  have hcut : cutAt d.span.start c.text = .ok (c.lead, c.declarationText) := by
    have hsides : Text.cutBytes? (Text.bytes c.lead) c.text = some (c.lead, c.declarationText) :=
      Text.cutBytes?_eq_some_iff.2 ⟨rfl, rfl⟩
    rw [cutAt, hd.start, hsides]
  let before : Text := c.lead ++ c.head ++ ("\x7b" : Text)
  have htext : c.text = before ++ ("\n\x7d\n" : Text) := by
    rw [NewClass.text, hconstructor]
    simp only [before, List.append_assoc]
    rfl
  have hbefore : Text.bytes before = body.start + 1 := by
    rw [hopening, Text.bytes_append]
    rfl
  have hinside : Text.cutBytes? (body.start + 1) c.text = some (before, ("\n\x7d\n" : Text)) :=
    Text.cutBytes?_eq_some_iff.2 ⟨htext, hbefore⟩
  -- a line break stands behind the brace, so the constructor goes behind that
  have hstarts : Text.startsWith ("\n\x7d\n" : Text) ['\n'] = true := by decide
  refine ⟨.insert (Text.bytes (before ++ ['\n'])) (Declaration.constructorText c.name "    " ['\n']),
    ?_, ?_⟩
  · rw [Declaration.constructorEdit, hbody]
    show (cutAt d.span.start c.text >>= _) = _
    rw [hcut, Text.bytes_append, hbefore, lineEnd_text hc, hd.name]
    show Except.ok ((Text.cutBytes? (body.start + 1) c.text).map _) = _
    rw [hinside, Option.map_some, lastIndent_lead]
    dsimp only
    rw [if_pos hstarts, List.nil_append]
  · have hsplit : c.text = before ++ ['\n'] ++ ("\x7d\n" : Text) := by
      rw [htext, List.append_assoc before]
      rfl
    rw [hsplit, Edit.insert_apply, hlines, NewClass.text]
    simp only [NewClass.constructor, NewClass.head, before, if_true, List.append_assoc]
    rfl

end Declares

end Project

end QuickFix
