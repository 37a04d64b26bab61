import QuickFix.Proofs.Source.Importing
import QuickFix.Proofs.Source.Reading
import QuickFix.Proofs.Source.Visibility

/-!
# Putting a constructor into a body

`Declaration.constructorEdit` puts a text behind the brace that opens a body. The text is cut into
pieces by itself (`exists_pieces_constructorText`), and its braces are balanced, so

* `tokens_put_behind_brace`: its tokens come behind the brace and the others stay;
* `exists_body_of_step`: a scan that finds the declaration finds it again, as what it reads of a
  body is only where that ends, and goes on as before.
-/

namespace QuickFix

open Source Source.Scanner

/-- The declarations have one name, kind and level, and their modifiers at the same places. -/
structure Declaration.SameHead (d d' : Declaration) : Prop where
  outline : d'.outline = d.outline
  visibilitySpan? : d'.visibilitySpan? = d.visibilitySpan?
  modifierStart : d'.modifierStart = d.modifierStart

namespace Source

/-! ## Tokens without their places -/

/-- The kind and the text of a token. -/
def Token.lexeme (k : Token) : TokenKind × Text := (k.kind, k.text)

def Piece.lexeme? (p : Piece) : Option (TokenKind × Text) :=
  match p.kind with
  | .token kind => some (kind, p.text)
  | _ => none

theorem map_lexeme_place (n : Nat) (ps : List Piece) :
    (place n ps).map Token.lexeme = ps.filterMap Piece.lexeme? := by
  induction ps generalizing n with
  | nil => rfl
  | cons p ps ih =>
    obtain ⟨kind, text⟩ := p
    cases kind with
    | token kind =>
      show (kind, text) :: (place (n + Text.bytes text) ps).map Token.lexeme = _
      rw [ih]
      rfl
    | blank => exact ih _
    | comment => exact ih _

theorem pieces_blanks_append {u : Text} (h : ∀ c ∈ u, Text.isAsciiBlank c = true) (b : Text) :
    pieces (u ++ b) = (u.map fun c => ⟨.blank, [c]⟩) ++ pieces b := by
  induction u with
  | nil => rfl
  | cons c u ih =>
    obtain ⟨hc, hu⟩ := List.forall_mem_cons.1 h
    rw [List.cons_append, pieces, firstPiece_blank hc, ih hu]
    rfl

theorem filterMap_lexeme?_blanks (u : Text) :
    (u.map fun c => (⟨.blank, [c]⟩ : Piece)).filterMap Piece.lexeme? = [] := by
  rw [List.filterMap_map]
  exact List.filterMap_eq_nil_iff.2 fun c _ => rfl

/-! ## The text of a constructor -/

/-- What is read of a constructor of the class `name`. -/
def constructorLexemes (name : Text) : List (TokenKind × Text) :=
  [(.word, "public"), (.word, name), (.openParen, ['(']), (.closeParen, [')']),
    (.openBrace, ['\x7b']), (.closeBrace, ['\x7d'])]

theorem isAsciiBlank_of_mem_lastIndent {t : Text} {c : Char} (h : c ∈ lastIndent t) :
    Text.isAsciiBlank c = true := by
  have hc := List.all_eq_true.1 List.all_takeWhile c h
  simp only [Bool.or_eq_true, decide_eq_true_eq] at hc
  rcases hc with rfl | rfl <;> decide

theorem LineEnds.isAsciiBlank {t : Text} (h : LineEnds t) {c : Char} (hc : c ∈ t) :
    Text.isAsciiBlank c = true := by
  rcases h c hc with rfl | rfl <;> decide

/-- The text of a constructor is cut from what follows. -/
theorem exists_pieces_constructorText {name indent newline : Text}
    (hname : Text.isIdentifier name = true) (hindent : ∀ c ∈ indent, Text.isAsciiBlank c = true)
    (hnewline : LineEnds newline) :
    ∃ ps, (∀ b, pieces (Declaration.constructorText name indent newline ++ b) = ps ++ pieces b) ∧
      ps.filterMap Piece.lexeme? = constructorLexemes name := by
  have hline : ∀ c ∈ newline, Text.isAsciiBlank c = true := fun c hc => hnewline.isAsciiBlank hc
  have hsign : ∀ {c : Char} {k : TokenKind} (b : Text), punctuation? c = some k →
      pieces (c :: b) = ⟨.token k, [c]⟩ :: pieces b := by
    intro c k b hk
    rw [pieces, firstPiece_punctuation hk]
  have hspace : ∀ b, pieces (' ' :: b) = ⟨.blank, [' ']⟩ :: pieces b := fun b => by
    rw [pieces, firstPiece_blank (by decide)]
  have hparen : ∀ b, pieces (name ++ '(' :: b) = ⟨.token .word, name⟩ :: pieces ('(' :: b) := by
    intro b
    refine Piece.EndsBefore.pieces_eq (p := ⟨.token .word, name⟩) (word_endsBefore_iff.2 ⟨hname, ?_⟩)
    intro y hy
    obtain rfl : '(' = y := Option.some.inj hy
    decide
  have htext : ∀ b, Declaration.constructorText name indent newline ++ b =
      indent ++ (("public" : Text) ++ ' ' :: (name ++ '(' :: ')' :: ' ' :: '\x7b' ::
        (newline ++ (indent ++ '\x7d' :: (newline ++ b))))) := by
    intro b
    unfold Declaration.constructorText
    simp only [List.append_assoc]
    rfl
  refine ⟨(indent.map fun c => ⟨.blank, [c]⟩) ++ ⟨.token .word, "public"⟩ :: ⟨.blank, [' ']⟩ ::
    ⟨.token .word, name⟩ :: ⟨.token .openParen, ['(']⟩ :: ⟨.token .closeParen, [')']⟩ ::
    ⟨.blank, [' ']⟩ :: ⟨.token .openBrace, ['\x7b']⟩ :: ((newline.map fun c => ⟨.blank, [c]⟩) ++
    ((indent.map fun c => ⟨.blank, [c]⟩) ++ ⟨.token .closeBrace, ['\x7d']⟩ ::
    (newline.map fun c => ⟨.blank, [c]⟩))), fun b => ?_, ?_⟩
  · rw [htext, pieces_blanks_append hindent, pieces_word_space (by decide), hparen, hsign _ rfl,
      hsign _ rfl, hspace, hsign _ rfl, pieces_blanks_append hline, pieces_blanks_append hindent,
      hsign _ rfl, pieces_blanks_append hline]
    simp only [List.append_assoc, List.cons_append]
  · simp only [List.filterMap_append, filterMap_lexeme?_blanks, List.nil_append,
      List.filterMap_cons, Piece.lexeme?]
    rfl

/-- So it is behind a line end, and what is read of it is the constructor. -/
theorem pieces_constructorText {name indent newline lead : Text}
    (hname : Text.isIdentifier name = true) (hindent : ∀ c ∈ indent, Text.isAsciiBlank c = true)
    (hnewline : LineEnds newline) (hlead : LineEnds lead) :
    (∀ b, pieces (lead ++ Declaration.constructorText name indent newline ++ b) =
        pieces (lead ++ Declaration.constructorText name indent newline) ++ pieces b) ∧
      (pieces (lead ++ Declaration.constructorText name indent newline)).filterMap Piece.lexeme? =
        constructorLexemes name := by
  obtain ⟨ps, hps, hlex⟩ := exists_pieces_constructorText hname hindent hnewline
  have happend : ∀ b, pieces (lead ++ Declaration.constructorText name indent newline ++ b) =
      pieces lead ++ ps ++ pieces b := by
    intro b
    rw [List.append_assoc, hlead.pieces_append, hps, List.append_assoc]
  have hself := happend []
  rw [List.append_nil, pieces, List.append_nil] at hself
  refine ⟨fun b => by rw [happend, hself], ?_⟩
  rw [hself, List.filterMap_append, hlex, hlead.pieces_eq, filterMap_lexeme?_blanks,
    List.nil_append]

/-- The tokens of a constructor: two words, an empty list of parameters and an empty body. -/
theorem exists_of_lexemes {name : Text} {ks : List Token}
    (h : ks.map Token.lexeme = constructorLexemes name) :
    ∃ (level word : Leaf .word) (openParen : Leaf .openParen) (closeParen : Leaf .closeParen)
      (openBrace : Leaf .openBrace) (closeBrace : Leaf .closeBrace),
      ks = [level.token, word.token, openParen.token, closeParen.token, openBrace.token,
        closeBrace.token] := by
  have leaf {k : Token} {p : TokenKind × Text} (hk : k.lexeme = p) :
      ∃ l : Leaf p.1, k = l.token := by
    subst hk
    exact ⟨⟨k.start, k.text⟩, rfl⟩
  unfold constructorLexemes at h
  obtain ⟨k₁, ks, rfl, h₁, h⟩ := List.map_eq_cons_iff.1 h
  obtain ⟨k₂, ks, rfl, h₂, h⟩ := List.map_eq_cons_iff.1 h
  obtain ⟨k₃, ks, rfl, h₃, h⟩ := List.map_eq_cons_iff.1 h
  obtain ⟨k₄, ks, rfl, h₄, h⟩ := List.map_eq_cons_iff.1 h
  obtain ⟨k₅, ks, rfl, h₅, h⟩ := List.map_eq_cons_iff.1 h
  obtain ⟨k₆, ks, rfl, h₆, h⟩ := List.map_eq_cons_iff.1 h
  obtain rfl := List.map_eq_nil_iff.1 h
  obtain ⟨level, rfl⟩ := leaf h₁
  obtain ⟨word, rfl⟩ := leaf h₂
  obtain ⟨openParen, rfl⟩ := leaf h₃
  obtain ⟨closeParen, rfl⟩ := leaf h₄
  obtain ⟨openBrace, rfl⟩ := leaf h₅
  obtain ⟨closeBrace, rfl⟩ := leaf h₆
  exact ⟨level, word, openParen, closeParen, openBrace, closeBrace, rfl⟩

/-- What is read of a constructor is balanced in its braces. -/
theorem balanced_of_lexemes {name : Text} {ks : List Token}
    (h : ks.map Token.lexeme = constructorLexemes name) : Balanced .openBrace .closeBrace ks := by
  obtain ⟨level, word, openParen, closeParen, openBrace, closeBrace, rfl⟩ := exists_of_lexemes h
  have hbraces : Balanced .openBrace .closeBrace (openBrace.token :: ([] ++ [closeBrace.token])) :=
    .group rfl .nil rfl .nil
  exact .plain nofun nofun (.plain nofun nofun (.plain nofun nofun (.plain nofun nofun hbraces)))

/-! ## Behind a brace -/

theorem brace_of_firstPiece {c : Char} {t : Text}
    (h : (firstPiece c t).1.kind = .token .openBrace) : c = '\x7b' := by
  refine Decidable.byContradiction fun hne => ?_
  unfold firstPiece at h
  split at h
  · cases h
  split at h
  · cases h
  split at h
  · cases h
  split at h
  · rename_i k hk
    obtain rfl : k = .openBrace := PieceKind.token.inj h
    unfold punctuation? at hk
    split at hk <;> cases hk
    exact hne rfl
  split at h
  · cases h
  split at h <;> cases h

/-- An opening brace is one character. -/
theorem text_of_openBrace {t : Text} {k : Token} (h : k ∈ tokens t) (hk : k.kind = .openBrace) :
    k.text = ['\x7b'] := by
  obtain ⟨b, c, u, hu, hf⟩ := endsBefore_of_mem_tokens h
  have hfst := congrArg Prod.fst hf
  have hkind : (firstPiece c (u ++ b)).1.kind = .token .openBrace := by
    rw [hfst]
    exact congrArg PieceKind.token hk
  obtain rfl : c = '\x7b' := brace_of_firstPiece hkind
  rw [firstPiece_punctuation rfl] at hfst
  exact (congrArg Piece.text hfst).symm

/-- Tokens put behind a brace and the line end after it. -/
theorem tokens_put_behind_brace {a nl new b : Text}
    (h : pieces (a ++ '\x7b' :: (nl ++ b)) =
      pieces a ++ ⟨.token .openBrace, ['\x7b']⟩ :: pieces (nl ++ b))
    (hnl : LineEnds nl) (hnew : ∀ b, pieces (new ++ b) = pieces new ++ pieces b) :
    ∃ ys, tokens (a ++ '\x7b' :: (nl ++ b)) =
        tokens a ++ ⟨.openBrace, Text.bytes a, ['\x7b']⟩ :: ys ∧
      tokens (a ++ '\x7b' :: (nl ++ (new ++ b))) =
        tokens a ++ ⟨.openBrace, Text.bytes a, ['\x7b']⟩ ::
          (place (Text.bytes (a ++ '\x7b' :: nl)) (pieces new) ++
            ys.map (Token.shift (Text.bytes new))) := by
  have hlast : ∀ p ∈ (pieces a).getLast?, p.EndsBefore ['\x7b'] := by
    intro p hp
    have hends := (pieces_of_append h).2.2 p hp
    rw [List.flatMap_cons] at hends
    exact hends.of_append
  have hput : ∀ z, tokens (a ++ '\x7b' :: (nl ++ z)) = tokens a ++
      ⟨.openBrace, Text.bytes a, ['\x7b']⟩ :: place (Text.bytes (a ++ '\x7b' :: nl)) (pieces z) := by
    intro z
    have hbrace : pieces ('\x7b' :: (nl ++ z)) =
        ⟨.token .openBrace, ['\x7b']⟩ :: (pieces nl ++ pieces z) := by
      rw [pieces, firstPiece_punctuation rfl, hnl.pieces_append]
    have hpieces : pieces (a ++ '\x7b' :: (nl ++ z)) = pieces a ++ pieces ('\x7b' :: (nl ++ z)) :=
      pieces_append fun p hp =>
        (Piece.EndsBefore.append_iff (List.cons_ne_nil '\x7b' []) (nl ++ z)).2 (hlast p hp)
    have hblank : ∀ n, place n (pieces nl) = [] := fun n => by
      rw [place_eq_map, hnl.tokens_eq, List.map_nil]
    rw [tokens, hpieces, hbrace, place_append, flatten_pieces, Nat.zero_add, Text.bytes_append,
      Text.bytes_cons, ← Nat.add_assoc]
    refine congrArg (tokens a ++ _ :: ·) ?_
    rw [place_append, hblank, List.nil_append, flatten_pieces]
    rfl
  refine ⟨_, hput b, ?_⟩
  rw [hput, hnew, place_append, flatten_pieces, Nat.add_comm _ (Text.bytes new), place_add]

/-! ## The scan of a body with tokens put in -/

theorem forall₂_shift (n : Nat) (ks : List Token) :
    List.Forall₂ (Token.Rel fun _ _ => True) ks (ks.map (Token.shift n)) := by
  rw [List.forall₂_map_right_iff]
  exact List.forall₂_same.2 fun k _ => ⟨rfl, .inl rfl, trivial, trivial⟩

theorem exists_body_of_tailOf {last : Nat} {ts : List Token} {body : Span}
    (h : (tailOf last ts).body? = some body) : ∃ hs brace zs, ts = hs ++ brace :: zs ∧
      brace.kind = .openBrace ∧ brace.start = body.start ∧
      ∀ last' ks us, Balanced .openBrace .closeBrace ks →
        List.Forall₂ (Token.Rel fun _ _ => True) zs us →
        List.Forall₂ (Token.Rel fun _ _ => True) (tailOf last ts).rest
          (tailOf last' (hs ++ brace :: (ks ++ us))).rest := by
  cases he : headerEnd? 0 ts with
  | none => simp only [tailOf, he, reduceCtorEq] at h
  | some p =>
    obtain ⟨brace, zs⟩ := p
    obtain ⟨hs, rfl⟩ := headerEnd?_suffix he
    have hbrace : brace.kind = .openBrace := by
      by_contra hne
      simp only [tailOf, he, if_neg hne, reduceCtorEq] at h
    refine ⟨hs, brace, zs, rfl, hbrace, ?_, fun last' ks us hks hus => ?_⟩
    · simp only [tailOf, he, if_pos hbrace] at h
      split at h <;> exact congrArg Span.start (Option.some.inj h)
    · have he' : headerEnd? 0 (hs ++ brace :: (ks ++ us)) = some (brace, ks ++ us) := by
        have hsplit : hs ++ brace :: zs = hs ++ [brace] ++ zs := by simp
        rw [hsplit] at he
        have := headerEnd?_change (b := []) (ks ++ us) he
        rwa [List.append_assoc] at this
      have hc : Option.Rel (closeRel fun _ _ => True) (closing? .openBrace .closeBrace 0 zs)
          (closing? .openBrace .closeBrace 0 (ks ++ us)) := by
        rw [hks.closing?_append (by decide)]
        exact closing?_rel hus
      simp only [tailOf, he, he', if_pos hbrace]
      generalize closing? .openBrace .closeBrace 0 zs = p,
        closing? .openBrace .closeBrace 0 (ks ++ us) = q at hc
      cases hc with
      | none => exact .nil
      | some hc => exact hc.2

theorem exists_body_of_declaration? {last kw : Nat} {header : Header} {kind : ClassKind}
    {ts rest : List Token} {d : Declaration} {body : Span}
    (h : declaration? last header kind kw ts = some (d, rest)) (hb : d.bodySpan? = some body) :
    ∃ name hs brace zs, ts = name :: (hs ++ brace :: zs) ∧ name.kind = .word ∧ d.name = name.text ∧
      brace.kind = .openBrace ∧ brace.start = body.start ∧
      ∀ last' ks us, Balanced .openBrace .closeBrace ks →
        List.Forall₂ (Token.Rel fun _ _ => True) zs us →
        ∃ d' rest', declaration? last' header kind kw (name :: (hs ++ brace :: (ks ++ us))) =
            some (d', rest') ∧ d.SameHead d' ∧
          List.Forall₂ (Token.Rel fun _ _ => True) rest rest' := by
  obtain ⟨name, ts, rfl, hname, rfl, rfl⟩ := declaration?_eq_some h
  obtain ⟨hs, brace, zs, rfl, hbrace, hstart, hput⟩ := exists_body_of_tailOf hb
  refine ⟨name, hs, brace, zs, rfl, hname, rfl, hbrace, hstart, fun last' ks us hks hus => ?_⟩
  simp only [declaration?, if_pos hname]
  exact ⟨_, _, rfl, ⟨rfl, rfl, rfl⟩, hput last' ks us hks hus⟩

/-- **A step that finds a declaration with a body** finds it again when balanced tokens are put in
behind the opening brace. -/
theorem exists_body_of_step {last : Nat} {s s' : Scanner} {d : Declaration} {body : Span}
    (h : s.step last = (some d, s')) (hb : d.bodySpan? = some body) :
    ∃ k hs brace zs, s.rest = k :: (hs ++ brace :: zs) ∧ (k.kind = .word ∨ k.kind = .at) ∧
      (∃ name ∈ hs, name.kind = .word ∧ d.name = name.text) ∧
      d.span.start = s.header.start?.getD k.start ∧
      brace.kind = .openBrace ∧ brace.start = body.start ∧
      ∀ last' ks us, Balanced .openBrace .closeBrace ks →
        List.Forall₂ (Token.Rel fun _ _ => True) zs us →
        ∃ d' s'', (s.withRest (k :: (hs ++ brace :: (ks ++ us)))).step last' = (some d', s'') ∧
          d.SameHead d' ∧ s'.Rel (fun _ _ => True) s'' := by
  obtain ⟨k, ts, us, kind, hr, hs', hd, hrole⟩ := step_eq_some h
  obtain ⟨_, _, -, -, -, hfound⟩ := declaration?_eq_some hd
  have hfrom : d.span.start = s.header.start?.getD k.start := by rw [hfound]
  obtain ⟨name, hs, brace, zs, rfl, hname, hdname, hbrace, hstart, hput⟩ :=
    exists_body_of_declaration? hd hb
  -- the tokens between the keyword and the name: none, or the word of `@interface`
  obtain ⟨pre, hpre, hkind, hstep⟩ : ∃ pre, ts = pre ++ name :: (hs ++ brace :: zs) ∧
      (k.kind = .word ∨ k.kind = .at) ∧ ∀ last' vs,
        (s.withRest (k :: (pre ++ name :: vs))).step last' =
          finish last' s.header kind k.start (name :: vs) := by
    rcases hrole with ⟨hrole, hts⟩ | ⟨hrole, rfl, hts⟩
    · have hfits := (Role.Fits.of_eq hrole).1
      refine ⟨[], hts.symm, .inl hfits, fun last' vs => ?_⟩
      have hrole' : role s.afterDot k (name :: vs) = .keyword kind :=
        (role_congr fun hk => absurd (hfits.symm.trans hk) (by decide)).trans hrole
      simp only [withRest, step, List.nil_append, hrole']
    · obtain ⟨hat, hi⟩ := Role.Fits.of_eq hrole
      obtain ⟨i, is, rfl⟩ := List.exists_cons_of_ne_nil (l := ts) (by rintro rfl; cases hi)
      refine ⟨[i], congrArg (i :: ·) hts.symm, .inr hat, fun last' vs => ?_⟩
      have hrole' : role s.afterDot k (i :: name :: vs) = .annotationType :=
        (role_congr fun _ => Iff.rfl).trans hrole
      simp only [withRest, step, List.cons_append, List.nil_append, hrole', List.tail_cons]
  refine ⟨k, pre ++ name :: hs, brace, zs, by rw [hr, hpre]; simp, hkind,
    ⟨name, by simp, hname, hdname⟩, hfrom, hbrace, hstart,
    fun last' ks us hks hus => ?_⟩
  obtain ⟨d', rest', hd', ho, hrest⟩ := hput last' ks us hks hus
  refine ⟨d', start rest', ?_, ho, ?_⟩
  · rw [List.append_assoc, List.cons_append, hstep, finish, hd']
  · rw [hs']
    exact .start hrest

/-- A run to a word or an `@` is the same whatever comes behind that. -/
theorem Scanner.Runs.change_behind {last : Nat} {s : Scanner} {k : Token} {pre x : List Token}
    {ds : List Declaration} (last' : Nat) (y : List Token)
    (h : Runs last (start (pre ++ s.rest)) ds s) (hr : s.rest = k :: x)
    (hk : k.kind = .word ∨ k.kind = .at) :
    Runs last' (start (pre ++ k :: y)) ds (s.withRest (k :: y)) := by
  have hput : Runs last ((start pre).put s.rest) ds ((s.withRest []).put s.rest) := by
    rw [withRest_put rfl]
    exact h
  have hjoins : Joins s.rest (k :: y) := by
    intro l hl
    obtain rfl := Option.some.inj hl
    have hsame : ∃ l ∈ s.rest.head?, l.text = k.text := ⟨k, by rw [hr]; rfl, rfl⟩
    rcases hk with hk | hk
    · exact ⟨by simp [hk], by simp [hk], by simp [hk], .inl hsame⟩
    · exact ⟨by simp [hk], by simp [hk], by simp [hk], .inl hsame⟩
  refine hput.change last' (by rw [hr]; exact List.cons_ne_nil k x) hjoins ?_
  rcases hk with hk | hk
  · exact .inr (.inl ⟨k, by rw [hr]; rfl, hk⟩)
  · refine .inl fun l hl => ?_
    obtain rfl := Option.some.inj hl
    rw [hk]
    decide

/-! ## Where a declaration starts -/

namespace Scanner

theorem start?_of_step {last : Nat} {s s' : Scanner} {d? : Option Declaration} {t : Token}
    {ts : List Token} (hr : s.rest = t :: ts) (h : s.step last = (d?, s')) :
    ∀ n ∈ s'.header.start?, n ∈ s.header.start? ∨ n = t.start := by
  have hor : ∀ n ∈ s.header.start?.or (some t.start), n ∈ s.header.start? ∨ n = t.start := by
    intro n hn
    cases hs : s.header.start? with
    | none =>
      rw [hs] at hn
      exact .inr (Option.some.inj hn).symm
    | some m =>
      rw [hs] at hn
      exact .inl hn
  by_cases ha : role s.afterDot t ts = .annotationUse
  · rw [step_annotationUse last hr ha] at h
    obtain ⟨-, rfl⟩ := Prod.mk.inj h
    exact hor
  by_cases hm : role s.afterDot t ts = .modifier
  · rw [step_modifier last hr hm] at h
    obtain ⟨-, rfl⟩ := Prod.mk.inj h
    exact hor
  · rw [step_forgets hr h ha hm]
    intro n hn
    cases hn

/-- The header starts at a token that the run has read. -/
theorem Runs.exists_start? {last : Nat} {s s' : Scanner} {ds : List Declaration}
    (h : Runs last s ds s') : ∃ pre, s.rest = pre ++ s'.rest ∧
      ∀ n ∈ s'.header.start?, n ∈ s.header.start? ∨ ∃ k ∈ pre, k.start = n := by
  induction h with
  | refl s => exact ⟨[], rfl, fun n hn => .inl hn⟩
  | @step s s₁ s' d? ds hs hst _ ih =>
    obtain ⟨t, ts, hr⟩ := List.exists_cons_of_ne_nil hs
    obtain ⟨pre, hpre, hstart⟩ := ih
    obtain ⟨read, hread⟩ := step_rest_suffix hs hst
    refine ⟨t :: (read ++ pre), ?_, fun n hn => ?_⟩
    · rw [hr, List.tail_cons] at hread
      rw [hr, ← hread, hpre]
      simp
    · rcases hstart n hn with hn | ⟨k, hk, hn⟩
      · rcases start?_of_step hr hst n hn with hn | rfl
        · exact .inl hn
        · exact .inr ⟨t, List.mem_cons_self, rfl⟩
      · exact .inr ⟨k, List.mem_cons_of_mem t (List.mem_append_right read hk), hn⟩

end Scanner

theorem exists_cutAt_of_mem {t : Text} {k : Token} (h : k ∈ tokens t) :
    ∃ before after, cutAt k.start t = .ok (before, after) := by
  obtain ⟨pre, post, hs⟩ := List.append_of_mem h
  obtain ⟨a, b, ht, -, hk, -⟩ := exists_split_of_tokens hs
  refine ⟨a, k.text ++ b, ?_⟩
  rw [cutAt, Text.cutBytes?_eq_some_iff.2 ⟨ht, hk.symm⟩]

end Source

/-- A declaration with a body is found again, with all others, when balanced tokens are put in behind
the brace. -/
theorem exists_body_of_getElem? {t : Text} {i : Nat} {d : Declaration} {body : Span}
    (hd : (declarations t)[i]? = some d) (hb : d.bodySpan? = some body) :
    ∃ xs brace zs, tokens t = xs ++ brace :: zs ∧
      brace.kind = .openBrace ∧ brace.start = body.start ∧
      (∃ name ∈ tokens t, name.kind = .word ∧ name.text = d.name) ∧
      (∃ k ∈ tokens t, k.start = d.span.start) ∧
      ∀ r ks us, tokens r = xs ++ brace :: (ks ++ us) → Balanced .openBrace .closeBrace ks →
        List.Forall₂ (Token.Rel fun _ _ => True) zs us →
        (declarations r).map Declaration.outline = (declarations t).map Declaration.outline ∧
          ∃ d', (declarations r)[i]? = some d' ∧ d.SameHead d' := by
  obtain ⟨ds, s₁, _, _, _, s, s', hrun₁, hlen, -, -, -, hl, hstep, -⟩ := exists_leads hd rfl rfl
  have hrun := hrun₁.trans (hl.runs (Text.bytes t))
  rw [List.append_nil] at hrun
  obtain ⟨k, hs, brace, zs, hr, hk, ⟨name, hname, hword, hdname⟩, hspan, hbrace, hstart, hput⟩ :=
    exists_body_of_step hstep hb
  obtain ⟨pre, hpre, hheader⟩ := hrun.exists_start?
  have htokens : tokens t = pre ++ s.rest := hpre
  refine ⟨pre ++ k :: hs, brace, zs, by rw [htokens, hr]; simp, hbrace, hstart,
    ⟨name, by rw [htokens, hr]; simp [hname], hword, hdname.symm⟩, ?_,
    fun r ks us hrt hks hus => ?_⟩
  · rw [hspan]
    cases hs₀ : s.header.start? with
    | none => exact ⟨k, by rw [htokens, hr]; simp, rfl⟩
    | some n =>
      rcases hheader n hs₀ with hn | ⟨l, hl, hn⟩
      · cases hn
      · exact ⟨l, by rw [htokens]; exact List.mem_append_left s.rest hl, hn⟩
  · obtain ⟨d', s'', hstep', hsame, hrel⟩ := hput (Text.bytes r) ks us hks hus
    have hrun' : Runs (Text.bytes r) (start (tokens r)) ds
        (s.withRest (k :: (hs ++ brace :: (ks ++ us)))) := by
      rw [hrt, List.append_assoc]
      exact Runs.change_behind (Text.bytes r) _ (htokens ▸ hrun) hr hk
    have hlater : (s''.run (Text.bytes r)).map Declaration.outline =
        (s'.run (Text.bytes t)).map Declaration.outline :=
      (Declaration.map_outline_eq (run_rel (R := fun _ _ => True) trivial hrel)).symm
    have hdr : declarations r = ds ++ d' :: s''.run (Text.bytes r) := by
      rw [declarations, hrun'.run_eq, run_step (List.cons_ne_nil _ _) hstep']
      rfl
    refine ⟨?_, d', by rw [hdr, ← hlen]; simp, hsame⟩
    rw [hdr, declarations, hrun.run_eq, run_step (by rw [hr]; exact List.cons_ne_nil _ _) hstep]
    simp only [Option.toList_some, List.map_append, List.map_cons, List.cons_append, List.nil_append,
      hsame.outline, hlater]

theorem exists_body_of_mem {t : Text} {d : Declaration} {body : Span} (hd : d ∈ declarations t)
    (hb : d.bodySpan? = some body) : ∃ xs brace zs, tokens t = xs ++ brace :: zs ∧
      brace.kind = .openBrace ∧ brace.start = body.start ∧
      (∃ name ∈ tokens t, name.kind = .word ∧ name.text = d.name) ∧
      (∃ k ∈ tokens t, k.start = d.span.start) ∧
      ∀ r ks us, tokens r = xs ++ brace :: (ks ++ us) → Balanced .openBrace .closeBrace ks →
        List.Forall₂ (Token.Rel fun _ _ => True) zs us →
        (declarations r).map Declaration.outline = (declarations t).map Declaration.outline := by
  obtain ⟨i, hi⟩ := List.getElem?_of_mem hd
  obtain ⟨xs, brace, zs, ht, hbrace, hstart, hname, hspan, hput⟩ := exists_body_of_getElem? hi hb
  exact ⟨xs, brace, zs, ht, hbrace, hstart, hname, hspan,
    fun r ks us hr hks hus => (hput r ks us hr hks hus).1⟩

/-! ## The edit -/

namespace Declaration

/-- The edit puts the constructor behind the brace, with a line end, or behind the line end after the
brace. -/
theorem constructorEdit_eq {d : Declaration} {t before after a b : Text} {body : Span}
    (hb : d.bodySpan? = some body) (hcut : cutAt d.span.start t = .ok (before, after))
    (ht : t = a ++ '\x7b' :: b) (ha : body.start = Text.bytes a) :
    ∃ nl lead, nl ++ lead = lineEnd t ∧ b = nl ++ (Text.after? (lineEnd t) b).getD b ∧
      d.constructorEdit t = .ok (some (.insert (Text.bytes (a ++ '\x7b' :: nl))
        (lead ++ constructorText d.name (lastIndent before ++ "    ") (lineEnd t)))) := by
  have hinside : Text.cutBytes? (body.start + 1) t = some (a ++ ['\x7b'], b) :=
    Text.cutBytes?_eq_some_iff.2
      ⟨by rw [ht, List.append_assoc]; rfl, by rw [ha, Text.bytes_append]; rfl⟩
  have hbytes : ∀ nl, Text.bytes (a ++ '\x7b' :: nl) = body.start + 1 + Text.bytes nl := by
    intro nl
    rw [Text.bytes_append, Text.bytes_cons, ha, Nat.add_assoc]
    rfl
  unfold constructorEdit
  simp only [hb, hcut, hinside, bind, Except.bind, pure, Except.pure, Option.map_some]
  cases hs : Text.after? (lineEnd t) b with
  | some b' =>
    have hstarts : Text.startsWith b (lineEnd t) = true := by rw [Text.startsWith, hs]; rfl
    refine ⟨lineEnd t, [], List.append_nil _, Text.after?_eq_some_iff.1 hs, ?_⟩
    rw [if_pos hstarts, hbytes]
    rfl
  | none =>
    have hstarts : Text.startsWith b (lineEnd t) = false := by rw [Text.startsWith, hs]; rfl
    refine ⟨[], lineEnd t, rfl, rfl, ?_⟩
    rw [if_neg (by rw [hstarts]; exact Bool.false_ne_true), hbytes]
    rfl

theorem exists_constructorEdit {d : Declaration} {t before after a b : Text} {body : Span}
    (hb : d.bodySpan? = some body) (hcut : cutAt d.span.start t = .ok (before, after))
    (ht : t = a ++ '\x7b' :: b) (ha : body.start = Text.bytes a) :
    ∃ nl b' lead, b = nl ++ b' ∧ LineEnds nl ∧ LineEnds lead ∧ d.constructorEdit t =
      .ok (some (.insert (Text.bytes (a ++ '\x7b' :: nl))
        (lead ++ constructorText d.name (lastIndent before ++ "    ") (lineEnd t)))) := by
  obtain ⟨nl, lead, hends, hb', he⟩ := constructorEdit_eq hb hcut ht ha
  have hline : LineEnds (nl ++ lead) := by
    rw [hends]
    exact lineEnd_lineEnds t
  exact ⟨nl, _, lead, hb', fun c hc => hline c (List.mem_append_left lead hc),
    fun c hc => hline c (List.mem_append_right nl hc), he⟩

end Declaration

/-- **The constructor of a declaration with a body**: the edit applies, what it puts in is read behind
the opening brace, and the text has the same declarations. -/
theorem Declaration.constructorEdit_putsIn {t : Text} {d : Declaration} {body : Span}
    (hd : d ∈ declarations t) (hb : d.bodySpan? = some body) :
    ∃ e r, d.constructorEdit t = .ok (some e) ∧ e.apply t = .ok r ∧
      (∃ xs brace ks ys, tokens t = xs ++ brace :: ys ∧
        brace.kind = .openBrace ∧ brace.start = body.start ∧
        ks.map Token.lexeme = constructorLexemes d.name ∧
        tokens r = xs ++ brace :: (ks ++ ys.map (Token.shift (Text.bytes e.text)))) ∧
      (declarations r).map outline = (declarations t).map outline := by
  obtain ⟨xs, brace, zs, htokens, hbrace, hstart, ⟨name, hname, hword, hdname⟩, ⟨k, hk, hspan⟩, hput⟩ :=
    exists_body_of_mem hd hb
  have htext : brace.text = ['\x7b'] :=
    text_of_openBrace (htokens ▸ List.mem_append_right xs List.mem_cons_self) hbrace
  obtain ⟨a, b, ht, rfl, hbstart, hpieces, -⟩ := exists_split_of_tokens htokens
  obtain ⟨kind, start, text⟩ := brace
  obtain rfl : kind = .openBrace := hbrace
  obtain rfl : text = ['\x7b'] := htext
  obtain rfl : start = Text.bytes a := hbstart
  obtain rfl : t = a ++ '\x7b' :: b := ht
  obtain ⟨before, after, hcut⟩ := exists_cutAt_of_mem hk
  rw [hspan] at hcut
  obtain ⟨nl, b, lead, rfl, hnl, hlead, he⟩ :=
    exists_constructorEdit hb hcut rfl hstart.symm
  -- the new text is cut from what follows
  have hid : Text.isIdentifier d.name = true := by
    obtain ⟨z, hz⟩ := endsBefore_of_mem_tokens hname
    rw [hword] at hz
    rw [← hdname]
    exact (word_endsBefore_iff.1 hz).1
  have hindent : ∀ c ∈ lastIndent before ++ "    ", Text.isAsciiBlank c = true := by
    intro c hc
    rcases List.mem_append.1 hc with hc | hc
    · exact isAsciiBlank_of_mem_lastIndent hc
    · exact List.all_eq_true.1 (by decide) c hc
  obtain ⟨hnew, hlex⟩ := pieces_constructorText hid hindent
    (lineEnd_lineEnds (a ++ '\x7b' :: (nl ++ b))) hlead
  generalize lead ++ constructorText d.name (lastIndent before ++ "    ")
    (lineEnd (a ++ '\x7b' :: (nl ++ b))) = new at *
  obtain ⟨ys, hys, hr⟩ := tokens_put_behind_brace hpieces hnl hnew
  obtain rfl : zs = ys := by
    rw [htokens] at hys
    exact (List.cons.inj (List.append_cancel_left hys)).2
  have happly := Edit.apply_between (a ++ '\x7b' :: nl) [] new b
  rw [List.append_assoc, List.append_assoc, List.nil_append] at happly
  have hks : (place (Text.bytes (a ++ '\x7b' :: nl)) (pieces new)).map Token.lexeme =
      constructorLexemes d.name := by rw [map_lexeme_place, hlex]
  refine ⟨_, _, he, happly, ⟨_, _, _, zs, htokens, rfl, hstart, hks, hr⟩, ?_⟩
  exact hput _ _ _ hr (balanced_of_lexemes hks) (forall₂_shift (Text.bytes new) zs)

/-- A body that is not closed and starts with a comment, in a text with both line ends. -/
theorem Declaration.constructorEdit_putsIn_comment :
    let t : Text := "enum A \x7b;\x7d\r\n  class B \x7b // two\n"
    ∃ d body e r, d ∈ declarations t ∧ d.bodySpan? = some body ∧ d.constructorEdit t = .ok (some e) ∧
      e.apply t = .ok r ∧ (declarations r).map outline =
        [(['A'], .enum, .package), (['B'], .plain, .package)] := by
  intro t
  have hd : (declarations t)[1]? =
      some ⟨"B", .plain, .package, none, 14, ⟨14, 31⟩, ⟨20, 21⟩, some ⟨22, 31⟩⟩ := by decide +kernel
  have ho : (declarations t).map outline =
      [(['A'], .enum, .package), (['B'], .plain, .package)] := by decide +kernel
  have hmem := List.mem_of_getElem? hd
  obtain ⟨e, r, he, hr, -, hall⟩ := constructorEdit_putsIn hmem rfl
  exact ⟨_, _, e, r, hmem, rfl, he, hr, hall.trans ho⟩

end QuickFix
