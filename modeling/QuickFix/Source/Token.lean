import QuickFix.Text.Blank
import QuickFix.Text.Identifier
import QuickFix.Text.Position

/-!
# Tokens of source text

Source text is cut into pieces from the left: blanks, comments and tokens. The pieces put together
are the text (`flatten_pieces`); its tokens are the pieces that are neither blank nor comment, each
with the byte offset where it starts.
-/

namespace QuickFix.Source

/-- Kind of a token. -/
inductive TokenKind where
  | word
  | openBrace
  | closeBrace
  | openParen
  | closeParen
  | semicolon
  | dot
  | at
  | literal
  | other
  deriving DecidableEq, Repr

/-- A token: its kind, the byte offset of its first character, and its characters. -/
structure Token where
  kind : TokenKind
  start : Nat
  text : Text
  deriving DecidableEq, Repr

namespace Token

/-- Byte offset just after the token. -/
def stop (k : Token) : Nat := k.start + Text.bytes k.text

/-- The stretch that the token covers. -/
def span (k : Token) : Span := ⟨k.start, k.stop⟩

/-- Is it the word `w`? -/
def isWord (k : Token) (w : Text) : Bool := k.kind = .word && k.text = w

end Token

/-- What a piece of source text is. -/
inductive PieceKind where
  | blank
  | comment
  | token (kind : TokenKind)
  deriving DecidableEq, Repr

/-- A piece of source text. -/
structure Piece where
  kind : PieceKind
  text : Text
  deriving DecidableEq, Repr

/-- The token that a character makes on its own. -/
def punctuation? (c : Char) : Option TokenKind :=
  match c with
  | '{' => some .openBrace
  | '}' => some .closeBrace
  | '(' => some .openParen
  | ')' => some .closeParen
  | ';' => some .semicolon
  | '.' => some .dot
  | '@' => some .at
  | _ => none

/-! ## Pieces that run to a mark -/

/-- The text up to and with the first `mark`, or all of it, and the rest. -/
def through (mark t : Text) : Text × Text :=
  match Text.around? mark t with
  | some (a, b) => (a ++ mark, b)
  | none => (t, [])

/-- The rest of a literal in single quotes `q` on one line, closing quote included: a backslash
keeps the next character from ending it, and so does nothing keep a line feed. -/
def quoted (q : Char) : Text → Text × Text
  | [] => ([], [])
  | '\\' :: [] => (['\\'], [])
  | '\\' :: c :: t => ('\\' :: c :: (quoted q t).1, (quoted q t).2)
  | c :: t =>
    if c = '\n' then ([], c :: t)
    else if c = q then ([c], t)
    else (c :: (quoted q t).1, (quoted q t).2)

/-- The rest of a literal after its first quote `q`; two more quotes open a block that runs to the
next three. -/
def literal (q : Char) (t : Text) : Text × Text :=
  match t with
  | c :: d :: r =>
    if c = q && d = q then (c :: d :: (through [q, q, q] r).1, (through [q, q, q] r).2)
    else quoted q t
  | _ => quoted q t

@[simp] theorem through_append (mark t : Text) : (through mark t).1 ++ (through mark t).2 = t := by
  unfold through
  split
  · rename_i a b h; exact (Text.eq_append_of_around? h).symm
  · simp

@[simp] theorem quoted_append (q : Char) (t : Text) : (quoted q t).1 ++ (quoted q t).2 = t := by
  fun_induction quoted q t <;> simp_all

@[simp] theorem literal_append (q : Char) (t : Text) : (literal q t).1 ++ (literal q t).2 = t := by
  unfold literal
  split
  · split <;> simp
  · simp

/-! ## The first piece -/

/-- The first piece of the text that starts with `c` and goes on with `t`, and what follows it. -/
def firstPiece (c : Char) (t : Text) : Piece × Text :=
  if Text.isAsciiBlank c then (⟨.blank, [c]⟩, t)
  else if c = '/' ∧ t.head? = some '/' then
    (⟨.comment, c :: t.takeWhile (· ≠ '\n')⟩, t.dropWhile (· ≠ '\n'))
  else if c = '/' ∧ t.head? = some '*' then
    let (body, rest) := through ['*', '/'] t.tail
    (⟨.comment, c :: '*' :: body⟩, rest)
  else match punctuation? c with
    | some kind => (⟨.token kind, [c]⟩, t)
    | none =>
      if c = '"' ∨ c = '\'' then
        let (body, rest) := literal c t
        (⟨.token .literal, c :: body⟩, rest)
      else if Text.isIdentStart c then
        (⟨.token .word, c :: t.takeWhile Text.isIdentContinue⟩, t.dropWhile Text.isIdentContinue)
      else (⟨.token .other, [c]⟩, t)

theorem firstPiece_append (c : Char) (t : Text) :
    (firstPiece c t).1.text ++ (firstPiece c t).2 = c :: t := by
  unfold firstPiece
  split
  · rfl
  split
  · simp
  split
  · rename_i h
    cases t with
    | nil => simp at h
    | cons d t => simp at h; simp [h]
  split
  · rfl
  split
  · simp
  split
  · simp
  · rfl

theorem firstPiece_text_ne_nil (c : Char) (t : Text) : (firstPiece c t).1.text ≠ [] := by
  unfold firstPiece
  repeat' split
  all_goals simp

theorem length_firstPiece_lt (c : Char) (t : Text) :
    (firstPiece c t).2.length < (c :: t).length := by
  have h := congrArg List.length (firstPiece_append c t)
  have hp := List.length_pos_iff.2 (firstPiece_text_ne_nil c t)
  simp only [List.length_append] at h
  omega

/-! ## Pieces and tokens -/

/-- The pieces of a text. -/
def pieces : Text → List Piece
  | [] => []
  | c :: t => (firstPiece c t).1 :: pieces (firstPiece c t).2
termination_by t => t.length
decreasing_by exact length_firstPiece_lt c t

theorem flatten_pieces (t : Text) : (pieces t).flatMap Piece.text = t := by
  fun_induction pieces t with
  | case1 => rfl
  | case2 c t ih => rw [List.flatMap_cons, ih, firstPiece_append]

/-- The tokens among pieces of which the first starts at offset `base`. -/
def place (base : Nat) : List Piece → List Token
  | [] => []
  | p :: ps =>
    match p.kind with
    | .token kind => ⟨kind, base, p.text⟩ :: place (base + Text.bytes p.text) ps
    | _ => place (base + Text.bytes p.text) ps

/-- The tokens of a text. -/
def tokens (t : Text) : List Token := place 0 (pieces t)

end QuickFix.Source
