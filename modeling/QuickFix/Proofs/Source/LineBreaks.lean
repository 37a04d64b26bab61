import QuickFix.Proofs.Source.Constructor
import QuickFix.Proofs.Source.Layout

/-!
# Line breaks of two conventions

`Text.crlf` puts a carriage return before every line feed. To the lexer a carriage return is a blank,
and no piece but a text block reads on behind a line feed, unless a backslash stands before it: that
takes the carriage return away from the line feed (`quoted_crlf`). So a text says the same in both
conventions exactly if none of its literals but text blocks hold line feeds
(`tokens_crlf_iff`); a backslash before a line break makes the two differ
(`tokens_crlf_differ`).
-/

namespace QuickFix

namespace Text

/-! ## Converted texts -/

/-- The text with every line feed replaced by a carriage return and a line feed. -/
def crlf (t : Text) : Text := t.flatMap fun c => if c = '\n' then ['\r', '\n'] else [c]

@[simp] theorem crlf_nil : crlf [] = [] := rfl

@[simp] theorem crlf_newline (t : Text) : crlf ('\n' :: t) = '\r' :: '\n' :: crlf t := rfl

theorem crlf_cons {c : Char} (hc : c ≠ '\n') (t : Text) : crlf (c :: t) = c :: crlf t := by
  simp [crlf, hc]

theorem crlf_append (a b : Text) : crlf (a ++ b) = crlf a ++ crlf b := List.flatMap_append

theorem crlf_eq_self {t : Text} (h : '\n' ∉ t) : crlf t = t := by
  induction t with
  | nil => rfl
  | cons c t ih =>
    obtain ⟨hc, ht⟩ := not_or.1 (List.mem_cons.not.1 h)
    rw [crlf_cons (Ne.symm hc), ih ht]

/-- What neither character of a line break satisfies ends at the same place. -/
theorem takeWhile_crlf {p : Char → Bool} (hn : p '\n' = false) (hr : p '\r' = false) (t : Text) :
    (crlf t).takeWhile p = t.takeWhile p ∧ (crlf t).dropWhile p = crlf (t.dropWhile p) := by
  induction t with
  | nil => exact ⟨rfl, rfl⟩
  | cons c t ih =>
    by_cases hc : c = '\n'
    · subst hc
      simp [hn, hr]
    · rw [crlf_cons hc]
      cases hp : p c with
      | true => simp [hp, ih]
      | false => simp [hp, crlf_cons hc]

theorem after?_crlf {m : Text} (hn : '\n' ∉ m) (hr : '\r' ∉ m) (t : Text) :
    after? m (crlf t) = (after? m t).map crlf := by
  induction m generalizing t with
  | nil => rfl
  | cons d m ih =>
    obtain ⟨hdn, hn⟩ := not_or.1 (List.mem_cons.not.1 hn)
    obtain ⟨hdr, hr⟩ := not_or.1 (List.mem_cons.not.1 hr)
    cases t with
    | nil => rfl
    | cons c t =>
      by_cases hc : c = '\n'
      · subst hc
        simp [after?, Ne.symm hdn, Ne.symm hdr]
      · rw [crlf_cons hc]
        by_cases hd : d = c
        · simp [after?, hd, ih hn hr]
        · simp [after?, hd]

/-- A mark without a line break is found at the same place. -/
theorem around?_crlf {d : Char} {m : Text} (hn : '\n' ∉ d :: m) (hr : '\r' ∉ d :: m) (t : Text) :
    around? (d :: m) (crlf t) = (around? (d :: m) t).map fun (a, b) => (crlf a, crlf b) := by
  induction t with
  | nil => rfl
  | cons c t ih =>
    have hafter := after?_crlf hn hr (c :: t)
    cases h : after? (d :: m) (c :: t) with
    | some r =>
      rw [h] at hafter
      rw [around?_of_after? h, around?_of_after? hafter]
      rfl
    | none =>
      rw [around?_cons_of_none h]
      by_cases hc : c = '\n'
      · subst hc
        have hnone : ∀ (e : Char) (u : Text), e ∉ d :: m → after? (d :: m) (e :: u) = none := by
          intro e u he
          have hde : d ≠ e := fun hde => he (hde ▸ List.mem_cons_self)
          simp [after?, hde]
        rw [crlf_newline, around?_cons_of_none (hnone _ _ hr), around?_cons_of_none (hnone _ _ hn), ih]
        simp [Function.comp_def]
      · rw [crlf_cons hc] at hafter ⊢
        rw [h] at hafter
        rw [around?_cons_of_none hafter, ih]
        simp [Function.comp_def, crlf_cons hc]

end Text

open Text

namespace Source

/-! ## What is read up to a line break -/

/-- What is read of a text and the rest, and the same of the converted text. Where reading stops at a
line feed, the carriage return before it may be read too. -/
inductive ReadAlike : Text × Text → Text × Text → Prop
  | whole (u rest : Text) : ReadAlike (u, rest) (crlf u, crlf rest)
  | stopped (u rest : Text) :
    ReadAlike (u, '\n' :: rest) (crlf u ++ ['\r'], '\n' :: crlf rest)

namespace ReadAlike

theorem cons {c : Char} {x y : Text × Text} (hc : c ≠ '\n') (h : ReadAlike x y) :
    ReadAlike (c :: x.1, x.2) (c :: y.1, y.2) := by
  cases h with
  | whole u rest =>
    have := whole (c :: u) rest
    rwa [crlf_cons hc] at this
  | stopped u rest =>
    have := stopped (c :: u) rest
    rwa [crlf_cons hc] at this

theorem text {x y : Text × Text} (h : ReadAlike x y) :
    y.1 = crlf x.1 ∨ y.1 = crlf x.1 ++ ['\r'] := by
  cases h with
  | whole => exact .inl rfl
  | stopped => exact .inr rfl

end ReadAlike

theorem lineComment_crlf (t : Text) :
    ReadAlike (t.takeWhile (· ≠ '\n'), t.dropWhile (· ≠ '\n'))
      ((crlf t).takeWhile (· ≠ '\n'), (crlf t).dropWhile (· ≠ '\n')) := by
  induction t with
  | nil => exact .whole [] []
  | cons c t ih =>
    by_cases hc : c = '\n'
    · subst hc
      exact .stopped [] t
    · have htake (u : Text) : (c :: u).takeWhile (· ≠ '\n') = c :: u.takeWhile (· ≠ '\n') := by
        simp [hc]
      have hdrop (u : Text) : (c :: u).dropWhile (· ≠ '\n') = u.dropWhile (· ≠ '\n') := by
        simp [hc]
      rw [crlf_cons hc, htake, htake, hdrop, hdrop]
      exact ih.cons hc

theorem through_crlf {d : Char} {m : Text} (hn : '\n' ∉ d :: m) (hr : '\r' ∉ d :: m) (t : Text) :
    ReadAlike (through (d :: m) t) (through (d :: m) (crlf t)) := by
  unfold through
  rw [around?_crlf hn hr]
  cases around? (d :: m) t with
  | none => exact .whole t []
  | some x =>
    have := ReadAlike.whole (x.1 ++ d :: m) x.2
    rwa [crlf_append, crlf_eq_self hn] at this

/-- A quoted literal that holds no line feed is read the same. -/
theorem quoted_crlf {q : Char} (hq : q ≠ '\r') {t : Text} (h : '\n' ∉ (quoted q t).1) :
    ReadAlike (quoted q t) (quoted q (crlf t)) := by
  fun_induction quoted q t with
  | case1 => exact .whole [] []
  | case2 => exact .whole ['\\'] []
  | case3 c t ih =>
    obtain ⟨-, h⟩ := not_or.1 (List.mem_cons.not.1 h)
    obtain ⟨hc, h⟩ := not_or.1 (List.mem_cons.not.1 h)
    rw [crlf_cons (by decide), crlf_cons (Ne.symm hc)]
    exact ((ih h).cons (Ne.symm hc)).cons (by decide)
  | case4 t =>
    rw [crlf_newline, quoted_cons (by decide), if_neg (by decide), if_neg (Ne.symm hq),
      quoted_cons (by decide), if_pos rfl]
    exact .stopped [] t
  | case5 t h₁ h₂ h₃ =>
    have hback : q ≠ '\\' := by
      rintro rfl
      cases t with
      | nil => exact h₁ rfl rfl
      | cons d t => exact h₂ d t rfl rfl
    rw [crlf_cons h₃, quoted_cons hback, if_neg h₃, if_pos rfl]
    exact (ReadAlike.whole [] t).cons h₃
  | case6 c t h₁ h₂ h₃ h₄ ih =>
    have hback : c ≠ '\\' := by
      rintro rfl
      cases t with
      | nil => exact h₁ rfl rfl
      | cons d t => exact h₂ d t rfl rfl
    obtain ⟨-, h⟩ := not_or.1 (List.mem_cons.not.1 h)
    rw [crlf_cons h₃, quoted_cons hback, if_neg h₃, if_neg h₄]
    exact (ih h).cons h₃

/-- Does the literal open with three quotes? -/
def isBlock : Text → Bool
  | a :: b :: c :: _ => a = b && b = c
  | _ => false

/-- No line break comes to stand where two signs stood, or the other way round. -/
theorem crlf_eq_cons_cons_iff {q : Char} (hn : q ≠ '\n') (hr : q ≠ '\r') {t : Text} :
    (∃ r, crlf t = q :: q :: r) ↔ ∃ r, t = q :: q :: r := by
  have head {u r : Text} (h : crlf u = q :: r) : ∃ u', u = q :: u' ∧ crlf u' = r := by
    cases u with
    | nil => cases h
    | cons c u =>
      by_cases hc : c = '\n'
      · rw [hc] at h
        exact absurd (List.cons.inj h).1.symm hr
      · rw [crlf_cons hc] at h
        obtain ⟨rfl, hu⟩ := List.cons.inj h
        exact ⟨u, rfl, hu⟩
  constructor
  · rintro ⟨r, h⟩
    obtain ⟨u, rfl, hu⟩ := head h
    obtain ⟨v, rfl, -⟩ := head hu
    exact ⟨v, rfl⟩
  · rintro ⟨r, rfl⟩
    exact ⟨crlf r, by rw [crlf_cons hn, crlf_cons hn]⟩

theorem literal_crlf {q : Char} (hq : q = '"' ∨ q = '\'') {t : Text}
    (h : '\n' ∈ (literal q t).1 → isBlock (q :: (literal q t).1) = true) :
    ReadAlike (literal q t) (literal q (crlf t)) := by
  have hn : q ≠ '\n' := by rcases hq with rfl | rfl <;> decide
  have hr : q ≠ '\r' := by rcases hq with rfl | rfl <;> decide
  by_cases hb : ∃ r, t = q :: q :: r
  · obtain ⟨r, rfl⟩ := hb
    have hmark {c : Char} (hc : q ≠ c) : c ∉ [q, q, q] := by simp [Ne.symm hc]
    rw [crlf_cons hn, crlf_cons hn, literal_block, literal_block]
    exact ((through_crlf (hmark hn) (hmark hr) r).cons hn).cons hn
  · have hb' := (crlf_eq_cons_cons_iff hn hr).not.2 hb
    rw [literal_eq_quoted fun r hr => hb ⟨r, hr⟩] at h ⊢
    rw [literal_eq_quoted fun r hr => hb' ⟨r, hr⟩]
    refine quoted_crlf hr fun hmem => ?_
    -- A block would need two quotes at the start of the text.
    have hblock := h hmem
    have happ := quoted_append q t
    match hu : (quoted q t).1 with
    | [] | [c] => simp [hu, isBlock] at hblock
    | c :: d :: u =>
      simp only [hu, isBlock, Bool.and_eq_true, decide_eq_true_eq] at hblock
      rw [hu, ← hblock.2, ← hblock.1] at happ
      exact hb ⟨u ++ (quoted q t).2, happ.symm⟩

/-! ## Pieces -/

theorem head?_crlf_eq_some_iff {d : Char} (hn : d ≠ '\n') (hr : d ≠ '\r') {t : Text} :
    (crlf t).head? = some d ↔ t.head? = some d := by
  cases t with
  | nil => rfl
  | cons c t =>
    by_cases hc : c = '\n'
    · subst hc
      simp [Ne.symm hn, Ne.symm hr]
    · rw [crlf_cons hc]
      rfl

/-- The first piece stays of its kind and is read alike. -/
theorem firstPiece_crlf {c : Char} (hc : c ≠ '\n') {t : Text}
    (h : (firstPiece c t).1.kind = .token .literal → '\n' ∈ (firstPiece c t).1.text →
      isBlock (firstPiece c t).1.text = true) :
    (firstPiece c t).1.kind = (firstPiece c (crlf t)).1.kind ∧
      ReadAlike ((firstPiece c t).1.text, (firstPiece c t).2)
        ((firstPiece c (crlf t)).1.text, (firstPiece c (crlf t)).2) := by
  have one : ReadAlike ([c], t) ([c], crlf t) := (ReadAlike.whole [] t).cons hc
  rcases firstPiece_cases c with hb | rfl | ⟨k, hp⟩ | hq | hi | ho
  · rw [firstPiece_blank hb, firstPiece_blank hb]
    exact ⟨rfl, one⟩
  · have hslash := head?_crlf_eq_some_iff (d := '/') (by decide) (by decide) (t := t)
    have hstar := head?_crlf_eq_some_iff (d := '*') (by decide) (by decide) (t := t)
    by_cases h₁ : t.head? = some '/'
    · rw [firstPiece_lineComment h₁, firstPiece_lineComment (hslash.2 h₁)]
      exact ⟨rfl, (lineComment_crlf t).cons hc⟩
    by_cases h₂ : t.head? = some '*'
    · obtain ⟨u, rfl⟩ := List.head?_eq_some_iff.1 h₂
      rw [crlf_cons (by decide), firstPiece_blockComment, firstPiece_blockComment]
      exact ⟨rfl, ((through_crlf (by decide) (by decide) u).cons (by decide)).cons hc⟩
    · rw [firstPiece_slash h₁ h₂, firstPiece_slash (mt hslash.1 h₁) (mt hstar.1 h₂)]
      exact ⟨rfl, one⟩
  · rw [firstPiece_punctuation hp, firstPiece_punctuation hp]
    exact ⟨rfl, one⟩
  · rw [firstPiece_quote hq] at h ⊢
    rw [firstPiece_quote hq]
    exact ⟨rfl, (literal_crlf hq fun hm => h rfl (List.mem_cons_of_mem c hm)).cons hc⟩
  · obtain ⟨htake, hdrop⟩ := takeWhile_crlf (p := Text.isIdentContinue) (by decide) (by decide) t
    have hno : '\n' ∉ t.takeWhile Text.isIdentContinue := fun hm =>
      absurd (List.all_eq_true.1 List.all_takeWhile _ hm) (by decide)
    rw [firstPiece_word hi, firstPiece_word hi, htake, hdrop]
    refine ⟨rfl, ReadAlike.cons hc (x := (_, _)) (y := (_, _)) ?_⟩
    have := ReadAlike.whole (t.takeWhile Text.isIdentContinue) (t.dropWhile Text.isIdentContinue)
    rwa [crlf_eq_self hno] at this
  · rw [ho, ho]
    exact ⟨rfl, one⟩

theorem lexemes_blank {c : Char} (hb : Text.isAsciiBlank c = true) (t : Text) :
    (pieces (c :: t)).filterMap Piece.lexeme? = (pieces t).filterMap Piece.lexeme? := by
  rw [pieces, firstPiece_blank hb]
  rfl

/-- The line feed that reading stopped at may have lost its carriage return, which is a blank. -/
theorem ReadAlike.lexemes_rest {x y : Text × Text} (h : ReadAlike x y) :
    (pieces y.2).filterMap Piece.lexeme? = (pieces (crlf x.2)).filterMap Piece.lexeme? := by
  cases h with
  | whole => rfl
  | stopped u rest => exact (lexemes_blank (c := '\r') (by decide) ('\n' :: crlf rest)).symm

/-- The lexemes of a kind, with their texts as they are read in the converted text. -/
def Converts (k l : TokenKind × Text) : Prop :=
  k.1 = l.1 ∧ (l.2 = crlf k.2 ∨ l.2 = crlf k.2 ++ ['\r'])

theorem lexemes_crlf {t : Text} (h : ∀ p ∈ pieces t, p.kind = .token .literal → '\n' ∈ p.text →
    isBlock p.text = true) :
    List.Forall₂ Converts ((pieces t).filterMap Piece.lexeme?)
      ((pieces (crlf t)).filterMap Piece.lexeme?) := by
  fun_induction pieces t with
  | case1 =>
    rw [crlf_nil, pieces]
    exact .nil
  | case2 c t ih =>
    obtain ⟨hfirst, hrest⟩ := List.forall_mem_cons.1 h
    by_cases hc : c = '\n'
    · subst hc
      rw [firstPiece_blank (by decide)] at ih hrest ⊢
      rw [crlf_newline, lexemes_blank (by decide), lexemes_blank (by decide)]
      exact ih hrest
    · obtain ⟨hkind, hread⟩ := firstPiece_crlf hc hfirst
      have hlex := hread.lexemes_rest
      rw [crlf_cons hc, pieces, List.filterMap_cons, List.filterMap_cons, hlex]
      unfold Piece.lexeme?
      rw [← hkind]
      cases (firstPiece c t).1.kind with
      | token kind => exact .cons ⟨rfl, hread.text⟩ (ih hrest)
      | blank => exact ih hrest
      | comment => exact ih hrest

/-! ## Tokens -/

/-- The token `l` says what `k` says with its line breaks converted. A literal that nothing closes on
its line may take in the carriage return at the end of the line. -/
def Token.Converts (k l : Token) : Prop :=
  k.Alike l ∧ (l.text = crlf k.text ∨ l.text = crlf k.text ++ ['\r'])

/-- Of the characters of a line break none is in a token that is no literal. -/
theorem not_mem_text {t : Text} {k : Token} (hk : k ∈ tokens t) (hl : k.kind ≠ .literal) :
    '\n' ∉ k.text ∧ '\r' ∉ k.text := by
  obtain ⟨a, b, -, -, hshape⟩ := shape_of_mem_tokens hk
  generalize hp : (⟨.token k.kind, k.text⟩ : Piece) = p at hshape
  have one {c d : Char} (hc : Text.isAsciiBlank c = false) (hd : Text.isAsciiBlank d = true) :
      d ∉ [c] := by
    rintro hm
    rw [List.mem_singleton.1 hm, hc] at hd
    cases hd
  cases hshape with
  | blank | lineComment | blockComment | openComment => cases hp
  | literal => exact absurd (congrArg Piece.kind hp) (by simpa using hl)
  | @sign c kind hc =>
    have hb : Text.isAsciiBlank c = false := by
      unfold punctuation? at hc
      split at hc <;> first | decide | cases hc
    rw [show k.text = [c] from congrArg Piece.text hp]
    exact ⟨one hb (by decide), one hb (by decide)⟩
  | @other c hb =>
    rw [show k.text = [c] from congrArg Piece.text hp]
    exact ⟨one hb (by decide), one hb (by decide)⟩
  | @word w hw =>
    rw [show k.text = w from congrArg Piece.text hp]
    obtain ⟨c, u, rfl, hc, hu⟩ := exists_of_isIdentifier hw
    refine ⟨fun hm => ?_, fun hm => ?_⟩
    · rcases List.mem_cons.1 hm with rfl | hm
      · exact absurd hc (by decide)
      · exact absurd (hu _ hm) (by decide)
    · rcases List.mem_cons.1 hm with rfl | hm
      · exact absurd hc (by decide)
      · exact absurd (hu _ hm) (by decide)

theorem tokens_crlf {t : Text} (h : ∀ k ∈ tokens t, k.kind = .literal → '\n' ∈ k.text →
    isBlock k.text = true) : List.Forall₂ Token.Converts (tokens t) (tokens (crlf t)) := by
  have hlex : List.Forall₂ Converts ((tokens t).map Token.lexeme)
      ((tokens (crlf t)).map Token.lexeme) := by
    rw [tokens, tokens, map_lexeme_place, map_lexeme_place]
    refine lexemes_crlf fun p hp hkind hm => ?_
    have hmem : (.literal, p.text) ∈ (pieces t).filterMap Piece.lexeme? :=
      List.mem_filterMap.2 ⟨p, hp, by simp only [Piece.lexeme?, hkind]⟩
    rw [← map_lexeme_place 0] at hmem
    obtain ⟨k, hk, he⟩ := List.mem_map.1 hmem
    obtain ⟨hk₁, hk₂⟩ := Prod.mk.inj he
    rw [← hk₂] at hm ⊢
    exact h k hk hk₁ hm
  rw [List.forall₂_map_left_iff, List.forall₂_map_right_iff, List.forall₂_iff_get] at hlex
  refine List.forall₂_iff_get.2 ⟨hlex.1, fun i hi hj => ?_⟩
  obtain ⟨hkind, htext⟩ := hlex.2 i hi hj
  refine ⟨⟨hkind, fun hl => ?_⟩, htext⟩
  have hn := (not_mem_text (List.get_mem (tokens t) ⟨i, hi⟩) hl).1
  have hr := (not_mem_text (List.get_mem (tokens (crlf t)) ⟨i, hj⟩) fun hl' => hl (hkind.trans hl')).2
  rcases htext with htext | htext
  · exact (htext.trans (crlf_eq_self hn)).symm
  · refine absurd ?_ hr
    rw [show ((tokens (crlf t)).get ⟨i, hj⟩).text = _ from htext]
    exact List.mem_append_right _ List.mem_cons_self

/-! ## Line feeds in literals -/

/-- A line feed in a quoted literal stands behind a backslash. -/
theorem getLast?_of_quoted {q : Char} {t x y : Text} (h : (quoted q t).1 = x ++ '\n' :: y) :
    x.getLast? = some '\\' := by
  have behind {c : Char} {u : Text} (hu : u.getLast? = some '\\') :
      (c :: u).getLast? = some '\\' := by
    cases u with
    | nil => cases hu
    | cons d u => rw [List.getLast?_cons_cons, hu]
  fun_induction quoted q t generalizing x with
  | case1 | case4 => simp at h
  | case2 =>
    cases x with
    | nil => cases h
    | cons c x => simp at h
  | case3 c t ih =>
    cases x with
    | nil => cases h
    | cons d x =>
      cases x with
      | nil =>
        rw [(List.cons.inj h).1]
        rfl
      | cons e x =>
        rw [List.cons_append, List.cons_append] at h
        exact behind (behind (ih (List.cons.inj (List.cons.inj h).2).2))
  | case5 t _ _ hn =>
    cases x with
    | nil => exact absurd (List.cons.inj h).1 hn
    | cons c x => simp at h
  | case6 c t _ _ hn _ ih =>
    cases x with
    | nil => exact absurd (List.cons.inj h).1 hn
    | cons d x => exact behind (ih (List.cons.inj h).2)

theorem getLast?_of_literal {t x y : Text} {k : Token} (hk : k ∈ tokens t)
    (hl : k.kind = .literal) (hb : isBlock k.text = false) (h : k.text = x ++ '\n' :: y) :
    x.getLast? = some '\\' := by
  obtain ⟨b, q, u, hu, hf⟩ := endsBefore_of_mem_tokens hk
  obtain ⟨q', u', hu', hq⟩ := (parts_tokens t).literal hk hl
  obtain ⟨rfl, rfl⟩ := List.cons.inj (hu.symm.trans hu')
  rw [firstPiece_quote hq] at hf
  have htext : q :: (literal q (u ++ b)).1 = k.text := congrArg (fun r => r.1.text) hf
  have hquoted : literal q (u ++ b) = quoted q (u ++ b) := by
    refine literal_eq_quoted fun r hr => ?_
    rw [← htext, hr, literal_block] at hb
    simp [isBlock] at hb
  rw [hquoted] at htext
  rw [← htext] at h
  cases x with
  | nil =>
    rcases hq with rfl | rfl <;> cases h
  | cons c x =>
    have hx := getLast?_of_quoted (List.cons.inj h).2
    cases x with
    | nil => cases hx
    | cons d x => rw [List.getLast?_cons_cons, hx]

theorem isBlock_cons_iff {q : Char} {u : Text} :
    isBlock (q :: u) = true ↔ ∃ r, u = q :: q :: r := by
  match u with
  | [] | [c] => simp [isBlock]
  | c :: d :: u =>
    simp only [isBlock, Bool.and_eq_true, decide_eq_true_eq, List.cons.injEq]
    constructor
    · rintro ⟨rfl, rfl⟩
      exact ⟨u, rfl, rfl, rfl⟩
    · rintro ⟨r, rfl, rfl, rfl⟩
      exact ⟨rfl, rfl⟩

/-- Only a block becomes a block. -/
theorem Token.Converts.isBlock {t : Text} {k l : Token} (h : k.Converts l) (hk : k ∈ tokens t)
    (hl : k.kind = .literal) (hb : Source.isBlock l.text = true) : Source.isBlock k.text = true := by
  obtain ⟨q, u, hu, hq⟩ := (parts_tokens t).literal hk hl
  have hn : q ≠ '\n' := by rcases hq with rfl | rfl <;> decide
  have hr : q ≠ '\r' := by rcases hq with rfl | rfl <;> decide
  rw [hu, isBlock_cons_iff, ← crlf_eq_cons_cons_iff hn hr]
  rw [Token.Converts, hu, crlf_cons hn] at h
  rcases h.2 with htext | htext
  · rwa [htext, isBlock_cons_iff] at hb
  · rw [htext, List.cons_append, isBlock_cons_iff] at hb
    obtain ⟨r, hr'⟩ := hb
    match hc : crlf u with
    | [] => simp [hc, Ne.symm hr] at hr'
    | [c] => simp [hc, Ne.symm hr] at hr'
    | c :: d :: v =>
      simp only [hc, List.cons_append, List.cons.injEq] at hr'
      exact ⟨v, by rw [hr'.1, hr'.2.1]⟩

end Source

open Source

/-- **Both conventions say the same exactly if only text blocks hold line feeds**: then the tokens of
the converted text are those of the text, with the line breaks in literals converted, and the same
declarations are found. -/
theorem tokens_crlf_iff (t : Text) :
    (∀ k ∈ tokens t, k.kind = .literal → '\n' ∈ k.text → isBlock k.text = true) ↔
      List.Forall₂ Token.Converts (tokens t) (tokens (crlf t)) ∧
        (declarations t).map Declaration.outline =
          (declarations (crlf t)).map Declaration.outline := by
  constructor
  · intro h
    have htokens := tokens_crlf h
    have hrel := tokens_rel (htokens.imp fun _ _ hkl => hkl.1)
    exact ⟨htokens, Declaration.map_outline_eq (Scanner.run_rel (.inr ⟨rfl, rfl⟩) (.start hrel))⟩
  · rintro ⟨h, -⟩ k hk hl hm
    obtain ⟨i, hi, rfl⟩ := List.getElem_of_mem hk
    have hlength := h.length_eq
    have hconverts := (List.forall₂_iff_get.1 h).2 i hi (hlength ▸ hi)
    obtain ⟨x, y, hxy⟩ := List.append_of_mem hm
    -- The line feed stands behind a carriage return now, and not behind a backslash.
    obtain ⟨z, hz⟩ : ∃ z, ((tokens (crlf t)).get ⟨i, hlength ▸ hi⟩).text =
        (crlf x ++ ['\r']) ++ '\n' :: z := by
      have htext : crlf ((tokens t)[i]).text = (crlf x ++ ['\r']) ++ '\n' :: crlf y := by
        rw [hxy, crlf_append, crlf_newline]
        simp
      rcases hconverts.2 with h | h
      · exact ⟨crlf y, h.trans htext⟩
      · exact ⟨crlf y ++ ['\r'], by rw [h, List.get_eq_getElem, htext]; simp⟩
    refine hconverts.isBlock hk hl ?_
    by_contra hb
    have hlast := getLast?_of_literal (List.get_mem _ _) (hconverts.1.1 ▸ hl)
      (Bool.eq_false_iff.2 hb) hz
    simp at hlast

/-- A backslash keeps a line feed from ending a literal, and of a line break it keeps only the carriage
return from that: a class appears that was in a literal. -/
theorem tokens_crlf_differ :
    let t : Text := "\"\\\nclass A \x7b\x7d\""
    '\r' ∉ t ∧ crlf t = "\"\\\r\nclass A \x7b\x7d\"" ∧ (tokens t).map (·.kind) = [.literal] ∧
      (tokens (crlf t)).map (·.kind) =
        [.literal, .word, .word, .openBrace, .closeBrace, .literal] ∧
      declarations t = [] ∧ (declarations (crlf t)).map (·.name) = [['A']] := by
  decide +kernel

end QuickFix
