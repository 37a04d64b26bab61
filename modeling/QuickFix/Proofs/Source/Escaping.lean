import QuickFix.Proofs.Source.Lexing

/-!
# Escaped characters in literals

A text is written into a literal with some of its characters behind a backslash (`escaped`). In a
literal of one line a backslash keeps a quote from ending it. A block ends with the first three quotes
in a row, wherever they stand: backslashes part the quotes of the text from each other, but not a quote
at its very end from the three that close the block (`around?_blockText`).

`literal_escaped_iff`: a literal of one line always is one token, and a block is one exactly if its text
does not end with a quote. If it does, the block ends one quote too early (`tokens_block_of_quote`).
-/

namespace QuickFix

namespace Source

/-! ## Writing a text into a literal -/

/-- The text with every character that has a code written as a backslash and its code. -/
def escaped (code : Char → Option Char) (s : Text) : Text :=
  s.flatMap fun c => (code c).elim [c] fun d => ['\\', d]

/-- The quote that closes a literal of one line has a code, and so have backslashes and line feeds. -/
structure Codes (q : Char) (code : Char → Option Char) : Prop where
  quote : (code q).isSome
  backslash : (code '\\').isSome
  lineFeed : (code '\n').isSome

/-- Quotes and backslashes are their own codes. -/
def blockCode (q c : Char) : Option Char := if c = '\\' ∨ c = q then some c else none

/-- The literal of one line that the quote `q` opens and closes around a text. -/
def lineLiteral (q : Char) (code : Char → Option Char) (s : Text) : Text :=
  q :: (escaped code s ++ [q])

/-- What stands in a block. -/
def blockText (q : Char) (s : Text) : Text := escaped (blockCode q) s

/-- The block that three quotes `q` open and close around a text. -/
def block (q : Char) (s : Text) : Text := q :: q :: q :: (blockText q s ++ [q, q, q])

section

variable {q c d : Char} {code : Char → Option Char} {s rest : Text}

theorem escaped_append (a b : Text) : escaped code (a ++ b) = escaped code a ++ escaped code b :=
  List.flatMap_append

theorem escaped_cons_some (h : code c = some d) (s : Text) :
    escaped code (c :: s) = '\\' :: d :: escaped code s := by
  rw [escaped, List.flatMap_cons, h]
  rfl

theorem escaped_cons_none (h : code c = none) (s : Text) :
    escaped code (c :: s) = c :: escaped code s := by
  rw [escaped, List.flatMap_cons, h]
  rfl

/-- A character that has a code does not begin what is written. -/
theorem head?_escaped_ne (hq : (code q).isSome) (hslash : q ≠ '\\') (hs : s ≠ []) (v : Text) :
    (escaped code s ++ v).head? ≠ some q := by
  obtain ⟨c, s, rfl⟩ := List.exists_cons_of_ne_nil hs
  cases hc : code c with
  | some d =>
    rw [escaped_cons_some hc]
    exact fun h => hslash (Option.some.inj h).symm
  | none =>
    rw [escaped_cons_none hc]
    intro h
    rw [← Option.some.inj h, hc] at hq
    cases hq

/-! ## Literals of one line -/

theorem quoted_escaped (hcode : Codes q code) (hslash : q ≠ '\\') (hfeed : q ≠ '\n') (s rest : Text) :
    quoted q (escaped code s ++ q :: rest) = (escaped code s ++ [q], rest) := by
  induction s with
  | nil =>
    show quoted q (q :: rest) = ([q], rest)
    rw [quoted_cons hslash, if_neg hfeed, if_pos rfl]
  | cons c s ih =>
    cases hc : code c with
    | some d =>
      rw [escaped_cons_some hc, List.cons_append, List.cons_append, quoted, ih]
      rfl
    | none =>
      have hne {x : Char} (hx : (code x).isSome) : c ≠ x := by
        rintro rfl
        rw [hc] at hx
        cases hx
      rw [escaped_cons_none hc, List.cons_append, quoted_cons (hne hcode.backslash),
        if_neg (hne hcode.lineFeed), if_neg (hne hcode.quote), ih]
      rfl

/-- Before a quote the empty literal would open a block. -/
theorem lineLiteral_endsBefore (hq : q = '"' ∨ q = '\'') (hcode : Codes q code)
    (hrest : s = [] → rest.head? ≠ some q) :
    Piece.EndsBefore ⟨.token .literal, lineLiteral q code s⟩ rest := by
  have hslash : q ≠ '\\' := by rcases hq with rfl | rfl <;> decide
  have hfeed : q ≠ '\n' := by rcases hq with rfl | rfl <;> decide
  have hblock : ∀ r, escaped code s ++ q :: rest ≠ q :: q :: r := by
    intro r hr
    by_cases hs : s = []
    · subst hs
      exact hrest rfl (congrArg List.head? (List.cons.inj hr).2)
    · exact head?_escaped_ne hcode.quote hslash hs _ (congrArg List.head? hr)
  refine ⟨q, escaped code s ++ [q], rfl, ?_⟩
  rw [List.append_assoc, List.singleton_append, firstPiece_quote hq, literal_eq_quoted hblock,
    quoted_escaped hcode hslash hfeed]
  rfl

/-! ## Blocks -/

theorem blockCode_quote (q : Char) : blockCode q q = some q := if_pos (.inr rfl)

theorem blockText_quote (q : Char) (s : Text) :
    blockText q (s ++ [q]) = blockText q s ++ ['\\', q] := by
  rw [blockText, blockText, escaped_append, escaped_cons_some (blockCode_quote q)]
  rfl

theorem around?_cons_of_ne {m : Text} (h : c ≠ d) (t : Text) :
    Text.around? (d :: m) (c :: t) =
      (Text.around? (d :: m) t).map fun (a, b) => (c :: a, b) := by
  refine Text.around?_cons_of_none (Text.after?_eq_none_iff.2 fun hp => h ?_)
  exact (List.cons_prefix_cons.1 hp).1.symm

/-- Three quotes in a row never begin in the text of a block, but at a quote that ends it. -/
theorem around?_blockText (hslash : q ≠ '\\') {s v : Text}
    (h : s.getLast? = some q → ¬[q, q] <+: v) :
    Text.around? [q, q, q] (blockText q s ++ v) =
      (Text.around? [q, q, q] v).map fun (a, b) => (blockText q s ++ a, b) := by
  induction s with
  | nil => cases hv : Text.around? [q, q, q] v <;> exact hv
  | cons c s ih =>
    have hlast : s.getLast? = some q → ¬[q, q] <+: v := fun hs => by
      refine h ?_
      cases s with
      | nil => cases hs
      | cons d s => rw [List.getLast?_cons_cons, hs]
    by_cases hc : c = '\\' ∨ c = q
    · have hnext : Text.after? [q, q, q] (c :: (blockText q s ++ v)) = none := by
        refine Text.after?_eq_none_iff.2 fun hp => ?_
        obtain ⟨hcq, hp⟩ := List.cons_prefix_cons.1 hp
        by_cases hs : s = []
        · subst hs
          exact h (congrArg some hcq.symm) hp
        · have hcode : (blockCode q q).isSome := by rw [blockCode_quote]; rfl
          obtain ⟨r, hr⟩ := hp
          exact head?_escaped_ne hcode hslash hs v (congrArg List.head? hr).symm
      rw [blockText, escaped_cons_some (if_pos hc), ← blockText, List.cons_append, List.cons_append,
        around?_cons_of_ne (Ne.symm hslash), Text.around?_cons_of_none hnext, ih hlast]
      cases Text.around? [q, q, q] v <;> rfl
    · rw [blockText, escaped_cons_none (if_neg hc), ← blockText, List.cons_append,
        around?_cons_of_ne fun he => hc (.inr he), ih hlast]
      cases Text.around? [q, q, q] v <;> rfl

theorem block_endsBefore (hq : q = '"' ∨ q = '\'') (hs : s.getLast? ≠ some q) (rest : Text) :
    Piece.EndsBefore ⟨.token .literal, block q s⟩ rest := by
  have hslash : q ≠ '\\' := by rcases hq with rfl | rfl <;> decide
  have hmark : Text.around? [q, q, q] ([q, q, q] ++ rest) = some ([], rest) :=
    Text.around?_of_after? (Text.after?_eq_some_iff.2 rfl)
  refine ⟨q, q :: q :: (blockText q s ++ [q, q, q]), rfl, ?_⟩
  rw [List.cons_append, List.cons_append, List.append_assoc, firstPiece_quote hq, literal_block,
    through, around?_blockText hslash fun h => absurd h hs, hmark]
  simp [block]

/-- The quote that ends the text closes the block with the next two, and the last one is left over. -/
theorem tokens_block_of_quote (hq : q = '"' ∨ q = '\'') (s : Text) :
    let closed := q :: q :: q :: (blockText q s ++ ['\\', q, q, q])
    block q (s ++ [q]) = closed ++ [q] ∧
      tokens (block q (s ++ [q])) = [⟨.literal, 0, closed⟩, ⟨.literal, Text.bytes closed, [q]⟩] := by
  intro closed
  have hslash : q ≠ '\\' := by rcases hq with rfl | rfl <;> decide
  have htext : block q (s ++ [q]) = closed ++ [q] := by simp [block, blockText_quote, closed]
  have hquotes : Text.around? [q, q, q] [q, q, q, q] = some ([], [q]) :=
    Text.around?_of_after? (Text.after?_eq_some_iff.2 rfl)
  have hmark : Text.around? [q, q, q] ['\\', q, q, q, q] = some (['\\'], [q]) := by
    rw [around?_cons_of_ne (Ne.symm hslash), hquotes]
    rfl
  have hfirst : s.getLast? = some q → ¬[q, q] <+: ['\\', q, q, q, q] := fun _ hp =>
    hslash (List.cons_prefix_cons.1 hp).1
  have hclosed : Piece.EndsBefore ⟨.token .literal, closed⟩ [q] := by
    refine ⟨q, q :: q :: (blockText q s ++ ['\\', q, q, q]), rfl, ?_⟩
    rw [List.cons_append, List.cons_append, List.append_assoc, firstPiece_quote hq, literal_block,
      through]
    have htail : ['\\', q, q, q] ++ [q] = ['\\', q, q, q, q] := rfl
    rw [htail, around?_blockText hslash hfirst, hmark]
    simp [closed]
  have hlast : pieces [q] = [⟨.token .literal, [q]⟩] := by
    have hnil : literal q [] = ([], []) := rfl
    rw [pieces, firstPiece_quote hq, hnil, pieces]
  refine ⟨htext, ?_⟩
  rw [tokens, htext, hclosed.pieces_eq, hlast]
  simp [place]

end

/-- **An escaped quote never ends a literal of one line**, and it ends a block exactly where it is the
last character in it: a text written into a literal is one token but for that case. -/
theorem literal_escaped_iff {q : Char} (hq : q = '"' ∨ q = '\'') {code : Char → Option Char}
    (hcode : Codes q code) (s : Text) :
    (tokens (block q s) = [⟨.literal, 0, block q s⟩] ↔ s.getLast? ≠ some q) ∧
      tokens (lineLiteral q code s) = [⟨.literal, 0, lineLiteral q code s⟩] := by
  have one {t : Text} (h : Piece.EndsBefore ⟨.token .literal, t⟩ []) :
      tokens t = [⟨.literal, 0, t⟩] := by
    have hpieces := h.pieces_eq
    rw [List.append_nil] at hpieces
    rw [tokens, hpieces, pieces]
    rfl
  refine ⟨⟨fun h hlast => ?_, fun hs => one (block_endsBefore hq hs [])⟩,
    one (lineLiteral_endsBefore hq hcode fun _ h => by cases h)⟩
  obtain ⟨u, rfl⟩ := List.getLast?_eq_some_iff.1 hlast
  rw [(tokens_block_of_quote hq u).2] at h
  cases (List.cons.inj h).2

/-- A text with both kinds of quotes, a backslash, a line feed and a quote at its end; the line feed is
written as a letter. -/
theorem literal_escaped_iff_letter :
    let code (c : Char) : Option Char :=
      if c = '\n' then some 'n' else if c = '\'' ∨ c = '\\' then some c else none
    let s : Text := "\"\"\\\n'"
    (Codes '\'' code ∧ s.getLast? = some '\'' ∧ lineLiteral '\'' code s = "'\"\"\\\\\\n\\''") ∧
      (tokens (block '\'' s) = [⟨.literal, 0, block '\'' s⟩] ↔ s.getLast? ≠ some '\'') ∧
      tokens (lineLiteral '\'' code s) = [⟨.literal, 0, lineLiteral '\'' code s⟩] := by
  intro code s
  have hcode : Codes '\'' code := ⟨rfl, rfl, rfl⟩
  exact ⟨⟨hcode, rfl, by decide⟩, literal_escaped_iff (.inr rfl) hcode s⟩

/-- The block of a single quote: it closes one quote too early, and the last quote is a literal of its
own. -/
theorem block_quote_split :
    block '"' ['"'] = "\"\"\"\\\"\"\"\"" ∧
      tokens (block '"' ['"']) = [⟨.literal, 0, "\"\"\"\\\"\"\""⟩, ⟨.literal, 7, ['"']⟩] ∧
      tokens (block '"' ['"']) ≠ [⟨.literal, 0, block '"' ['"']⟩] := by
  decide +kernel

end Source

end QuickFix
