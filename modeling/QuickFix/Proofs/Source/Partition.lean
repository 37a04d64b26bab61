import QuickFix.Proofs.Source.Lexing

/-!
# The tokens of a text part it

What a piece is made of depends on its kind and on what it goes before: `Piece.Shape` has one case for
each way to read a first piece. From it `parts_tokens`: the tokens of a text stand in order, each over
its own characters, and every byte outside of them is a blank or in a comment.
-/

namespace QuickFix

/-- The search finds no occurrence behind another. -/
theorem Text.length_le_of_around? {p t a b x y : Text} (h : around? p t = some (a, b))
    (ht : t = x ++ (p ++ y)) : a.length ≤ x.length := by
  induction t generalizing a x with
  | nil =>
    simp only [around?] at h
    split at h
    · cases h
      exact Nat.zero_le _
    · cases h
  | cons c t ih =>
    cases hn : after? p (c :: t) with
    | some r =>
      rw [around?_of_after? hn] at h
      cases h
      exact Nat.zero_le _
    | none =>
      rw [around?_cons_of_none hn] at h
      obtain ⟨⟨a', b'⟩, h', he⟩ := Option.map_eq_some_iff.1 h
      obtain ⟨rfl, rfl⟩ := Prod.mk.inj he
      cases x with
      | nil => exact absurd ⟨y, ht.symm⟩ (after?_eq_none_iff.1 hn)
      | cons d x => exact Nat.succ_le_succ (ih h' (List.cons.inj ht).2)

namespace Source

/-! ## What pieces are made of -/

/-- The text before the first mark that closes a block comment, which is followed by `rest`. -/
def IsBody (u rest : Text) : Prop :=
  ∀ x y, u ++ '*' :: '/' :: rest = x ++ '*' :: '/' :: y → u.length ≤ x.length

/-- What a piece that goes before `rest` is made of. -/
inductive Piece.Shape (rest : Text) : Piece → Prop
  | blank {c : Char} (hc : Text.isAsciiBlank c = true) : Shape rest ⟨.blank, [c]⟩
  | lineComment {u : Text} (hu : '\n' ∉ u) (hr : ∀ c ∈ rest.head?, c = '\n') :
    Shape rest ⟨.comment, '/' :: '/' :: u⟩
  | blockComment {u : Text} (hu : IsBody u rest) :
    Shape rest ⟨.comment, '/' :: '*' :: (u ++ ['*', '/'])⟩
  | openComment {u : Text} (hu : ¬['*', '/'] <:+: u) (hr : rest = []) :
    Shape rest ⟨.comment, '/' :: '*' :: u⟩
  | sign {c : Char} {kind : TokenKind} (hc : punctuation? c = some kind) :
    Shape rest ⟨.token kind, [c]⟩
  | literal {q : Char} (u : Text) (hq : q = '"' ∨ q = '\'') : Shape rest ⟨.token .literal, q :: u⟩
  | word {w : Text} (hw : Text.isIdentifier w = true)
    (hr : ∀ c ∈ rest.head?, Text.isIdentContinue c = false) : Shape rest ⟨.token .word, w⟩
  | other {c : Char} (hb : Text.isAsciiBlank c = false) (hp : punctuation? c = none)
    (hq : c ≠ '"' ∧ c ≠ '\'') (hi : Text.isIdentStart c = false)
    (hs : c = '/' → ∀ d ∈ rest.head?, d ≠ '/' ∧ d ≠ '*') : Shape rest ⟨.token .other, [c]⟩

theorem shape_lineComment (t : Text) :
    Piece.Shape (t.dropWhile (· ≠ '\n')) ⟨.comment, '/' :: '/' :: t.takeWhile (· ≠ '\n')⟩ := by
  obtain ⟨hall, hhead⟩ := of_takeWhile_dropWhile (· ≠ '\n') t
  refine .lineComment (fun hm => ?_) fun c hc => ?_
  · simpa using hall _ hm
  · simpa using hhead c hc

theorem shape_blockComment (t : Text) : Piece.Shape (through ['*', '/'] t).2
    ⟨.comment, '/' :: '*' :: (through ['*', '/'] t).1⟩ := by
  unfold through
  split
  · rename_i a b h
    have ht := Text.eq_append_of_around? h
    refine .blockComment fun x y hxy => Text.length_le_of_around? h (x := x) (y := y) ?_
    rw [ht]
    simpa using hxy
  · rename_i h
    exact .openComment (Text.around?_eq_none_iff.1 h) rfl

theorem shape_firstPiece (c : Char) (t : Text) :
    Piece.Shape (firstPiece c t).2 (firstPiece c t).1 := by
  unfold firstPiece
  split
  · rename_i hb
    exact .blank hb
  rename_i hb
  split
  · rename_i h
    obtain ⟨rfl, h⟩ := h
    obtain ⟨t, rfl⟩ := List.head?_eq_some_iff.1 h
    exact shape_lineComment t
  rename_i hline
  split
  · rename_i h
    obtain ⟨rfl, h⟩ := h
    obtain ⟨t, rfl⟩ := List.head?_eq_some_iff.1 h
    exact shape_blockComment t
  rename_i hblock
  split
  · rename_i kind hp
    exact .sign hp
  rename_i hp
  split
  · rename_i hq
    exact .literal _ hq
  rename_i hq
  split
  · rename_i hi
    refine .word ?_ fun d hd => ?_
    · simp only [Text.isIdentifier, hi, Bool.true_and]
      exact List.all_takeWhile
    · simpa using (of_takeWhile_dropWhile Text.isIdentContinue t).2 d hd
  · rename_i hi
    refine .other (by simpa using hb) hp (not_or.1 hq) (by simpa using hi) fun hc d hd => ⟨?_, ?_⟩
    · rintro rfl
      exact hline ⟨hc, hd⟩
    · rintro rfl
      exact hblock ⟨hc, hd⟩

theorem Piece.EndsBefore.shape {p : Piece} {rest : Text} (h : p.EndsBefore rest) : p.Shape rest := by
  obtain ⟨c, t, -, hf⟩ := h
  have := shape_firstPiece c (t ++ rest)
  rwa [hf] at this

/-- A piece of a text goes before those that follow it. -/
theorem shape_of_pieces {t : Text} {p : Piece} {ps qs : List Piece} (h : pieces t = ps ++ p :: qs) :
    p.Shape (qs.flatMap Piece.text) :=
  (pieces_cons (pieces_of_append h).2.1).2.1.shape

/-! ## Tokens in a text -/

theorem slice?_of_mem_tokens {t : Text} {k : Token} (h : k ∈ tokens t) :
    Text.slice? k.start k.stop t = some k.text := by
  obtain ⟨pre, post, hs⟩ := List.append_of_mem h
  obtain ⟨a, b, ht, -, hk, -⟩ := exists_split_of_tokens hs
  exact Text.slice?_eq_some_iff.2 ⟨a, b, ht, hk.symm, rfl⟩

/-- A token of a text, with the text before and behind it. -/
theorem shape_of_mem_tokens {t : Text} {k : Token} (h : k ∈ tokens t) :
    ∃ a b, t = a ++ (k.text ++ b) ∧ Text.bytes a = k.start ∧
      Piece.Shape b ⟨.token k.kind, k.text⟩ := by
  obtain ⟨pre, post, hs⟩ := List.append_of_mem h
  obtain ⟨a, b, ht, -, hk, hp, -⟩ := exists_split_of_tokens hs
  refine ⟨a, b, ht, hk.symm, ?_⟩
  rw [← flatten_pieces b]
  exact shape_of_pieces hp

theorem pairwise_place (n : Nat) (ps : List Piece) :
    (place n ps).Pairwise fun k l => k.stop ≤ l.start := by
  induction ps generalizing n with
  | nil => exact .nil
  | cons p ps ih =>
    simp only [place]
    split
    · exact .cons (fun l hl => (start_le_of_mem_place hl).1) (ih _)
    · exact ih _

/-- Each byte of some pieces is in one of them. -/
theorem exists_piece_at {ps : List Piece} {i : Nat}
    (hi : i < Text.bytes (ps.flatMap Piece.text)) :
    ∃ qs p rs, ps = qs ++ p :: rs ∧ Text.bytes (qs.flatMap Piece.text) ≤ i ∧
      i < Text.bytes (qs.flatMap Piece.text) + Text.bytes p.text := by
  induction ps generalizing i with
  | nil => simp at hi
  | cons p ps ih =>
    rw [List.flatMap_cons, Text.bytes_append] at hi
    by_cases hp : i < Text.bytes p.text
    · exact ⟨[], p, ps, rfl, by simp, by simpa using hp⟩
    · obtain ⟨qs, q, rs, rfl, hle, hlt⟩ := ih (i := i - Text.bytes p.text) (by omega)
      refine ⟨p :: qs, q, rs, rfl, ?_, ?_⟩
      · rw [List.flatMap_cons, Text.bytes_append]
        omega
      · rw [List.flatMap_cons, Text.bytes_append]
        omega

/-! ## The parts -/

/-- The stretch of the text is a comment: from two slashes up to the next line feed or the end, or
from a slash and a star through the first star and slash behind them, or to the end. -/
inductive IsComment (t : Text) : Span → Prop
  | line {a u rest : Text} (ht : t = a ++ ('/' :: '/' :: u ++ rest)) (hu : '\n' ∉ u)
    (hr : ∀ c ∈ rest.head?, c = '\n') :
    IsComment t ⟨Text.bytes a, Text.bytes a + Text.bytes ('/' :: '/' :: u)⟩
  | block {a u rest : Text} (ht : t = a ++ ('/' :: '*' :: (u ++ ['*', '/']) ++ rest))
    (hu : IsBody u rest) :
    IsComment t ⟨Text.bytes a, Text.bytes a + Text.bytes ('/' :: '*' :: (u ++ ['*', '/']))⟩
  | unclosed {a u : Text} (ht : t = a ++ '/' :: '*' :: u) (hu : ¬['*', '/'] <:+: u) :
    IsComment t ⟨Text.bytes a, Text.bytes t⟩

theorem Piece.Shape.isComment {p : Piece} {t a rest : Text} (h : p.Shape rest)
    (hp : p.kind = .comment) (ht : t = a ++ (p.text ++ rest)) :
    IsComment t ⟨Text.bytes a, Text.bytes a + Text.bytes p.text⟩ := by
  cases h with
  | lineComment hu hr => exact .line ht hu hr
  | blockComment hu => exact .block ht hu
  | @openComment u hu hr =>
    rw [hr, List.append_nil] at ht
    have hstop : Text.bytes t = Text.bytes a + Text.bytes ('/' :: '*' :: u) := by
      rw [ht, Text.bytes_append]
    rw [← hstop]
    exact .unclosed ht hu
  | blank | sign | literal | word | other => cases hp

/-- The tokens part the text. -/
structure Parts (t : Text) (ks : List Token) : Prop where
  /-- No token is empty. -/
  start_lt_stop {k : Token} (hk : k ∈ ks) : k.start < k.stop
  /-- They are in order, and none overlaps another. -/
  ordered : ks.Pairwise fun k l => k.stop ≤ l.start
  /-- Each ends within the text, and both of its ends are places between characters. -/
  within {k : Token} (hk : k ∈ ks) :
    Text.IsBoundary t k.start ∧ Text.IsBoundary t k.stop ∧ k.stop ≤ Text.bytes t
  /-- Its characters are those of the text between its ends. -/
  reads {k : Token} (hk : k ∈ ks) : Text.slice? k.start k.stop t = some k.text
  /-- A byte that is in no token is a blank or in a comment, and the comment does not touch a token
  either. -/
  outside {i : Nat} (hi : i < Text.bytes t) (hout : ∀ k ∈ ks, ¬(k.start ≤ i ∧ i < k.stop)) :
    (∃ a c b, t = a ++ c :: b ∧ Text.bytes a = i ∧ Text.isAsciiBlank c = true) ∨
      ∃ s, IsComment t s ∧ s.start ≤ i ∧ i < s.stop ∧ ∀ k ∈ ks, k.stop ≤ s.start ∨ s.stop ≤ k.start
  /-- A word is an identifier, and no character behind it goes on the identifier. -/
  word {k : Token} (hk : k ∈ ks) (hw : k.kind = .word) : Text.isIdentifier k.text = true ∧
    ∀ a c b, t = a ++ c :: b → Text.bytes a = k.stop → Text.isIdentContinue c = false
  /-- A bracket, dot, semicolon or at sign is that character. -/
  sign {k : Token} {c : Char} (hk : k ∈ ks) (hc : punctuation? c = some k.kind) : k.text = [c]
  /-- A literal starts with a quote. -/
  literal {k : Token} (hk : k ∈ ks) (hl : k.kind = .literal) :
    ∃ q u, k.text = q :: u ∧ (q = '"' ∨ q = '\'')
  /-- Any other token is one character that starts nothing else. -/
  other {k : Token} (hk : k ∈ ks) (ho : k.kind = .other) : ∃ c, k.text = [c] ∧
    Text.isAsciiBlank c = false ∧ c ∉ ['"', '\'', '\x7b', '\x7d', '(', ')', ';', '.', '@'] ∧
    Text.isIdentStart c = false ∧
    ∀ a d b, t = a ++ c :: d :: b → Text.bytes a = k.start → ¬(c = '/' ∧ (d = '/' ∨ d = '*'))

/-! ## Tokens by their kind -/

theorem kind_of_punctuation? {c : Char} {kind : TokenKind} (h : punctuation? c = some kind) :
    kind ≠ .word ∧ kind ≠ .literal ∧ kind ≠ .other := by
  unfold punctuation? at h
  split at h <;> cases h <;> decide

/-- One character makes the sign of a kind. -/
theorem punctuation?_injective {c d : Char} {kind : TokenKind} (hc : punctuation? c = some kind)
    (hd : punctuation? d = some kind) : c = d := by
  unfold punctuation? at hc hd
  split at hc <;> cases hc <;> split at hd <;> cases hd <;> rfl

theorem not_mem_of_punctuation? {c : Char} (hp : punctuation? c = none) (hq : c ≠ '"' ∧ c ≠ '\'') :
    c ∉ ['"', '\'', '\x7b', '\x7d', '(', ')', ';', '.', '@'] := by
  intro hm
  have hall : (['\x7b', '\x7d', '(', ')', ';', '.', '@'].all fun c => (punctuation? c).isSome) =
      true := by decide
  rcases List.mem_cons.1 hm with h | hm
  · exact hq.1 h
  rcases List.mem_cons.1 hm with h | hm
  · exact hq.2 h
  have := List.all_eq_true.1 hall c hm
  rw [hp] at this
  cases this

namespace Piece.Shape

variable {w rest : Text}

theorem of_word (h : Shape rest ⟨.token .word, w⟩) : Text.isIdentifier w = true ∧
    ∀ c ∈ rest.head?, Text.isIdentContinue c = false := by
  cases h with
  | sign hc => exact absurd rfl (kind_of_punctuation? hc).1
  | word hw hr => exact ⟨hw, hr⟩

theorem of_literal (h : Shape rest ⟨.token .literal, w⟩) :
    ∃ q u, w = q :: u ∧ (q = '"' ∨ q = '\'') := by
  cases h with
  | sign hc => exact absurd rfl (kind_of_punctuation? hc).2.1
  | literal u hq => exact ⟨_, u, rfl, hq⟩

theorem of_other (h : Shape rest ⟨.token .other, w⟩) : ∃ c, w = [c] ∧
    Text.isAsciiBlank c = false ∧ c ∉ ['"', '\'', '\x7b', '\x7d', '(', ')', ';', '.', '@'] ∧
    Text.isIdentStart c = false ∧ (c = '/' → ∀ d ∈ rest.head?, d ≠ '/' ∧ d ≠ '*') := by
  cases h with
  | sign hc => exact absurd rfl (kind_of_punctuation? hc).2.2
  | other hb hp hq hi hs => exact ⟨_, rfl, hb, not_mem_of_punctuation? hp hq, hi, hs⟩

theorem of_sign {kind : TokenKind} {c : Char} (h : Shape rest ⟨.token kind, w⟩)
    (hc : punctuation? c = some kind) : w = [c] := by
  cases h with
  | sign hd => rw [punctuation?_injective hc hd]
  | word => exact absurd rfl (kind_of_punctuation? hc).1
  | literal => exact absurd rfl (kind_of_punctuation? hc).2.1
  | other => exact absurd rfl (kind_of_punctuation? hc).2.2

theorem of_blank {p : Piece} (h : p.Shape rest) (hk : p.kind = .blank) :
    ∃ c, p = ⟨.blank, [c]⟩ ∧ Text.isAsciiBlank c = true := by
  cases h with
  | blank hc => exact ⟨_, rfl, hc⟩
  | lineComment | blockComment | openComment | sign | literal | word | other => cases hk

end Piece.Shape

/-- A byte outside of the tokens is in a blank or in a comment. -/
theorem blank_or_comment {t : Text} {i : Nat} (hi : i < Text.bytes t)
    (hout : ∀ k ∈ tokens t, ¬(k.start ≤ i ∧ i < k.stop)) :
    (∃ a c b, t = a ++ c :: b ∧ Text.bytes a = i ∧ Text.isAsciiBlank c = true) ∨
      ∃ s, IsComment t s ∧ s.start ≤ i ∧ i < s.stop ∧
        ∀ k ∈ tokens t, k.stop ≤ s.start ∨ s.stop ≤ k.start := by
  obtain ⟨qs, p, rs, hps, hle, hlt⟩ := exists_piece_at (by rwa [flatten_pieces t])
  have ht : t = qs.flatMap Piece.text ++ (p.text ++ rs.flatMap Piece.text) := eq_append_of_pieces hps
  have hshape := shape_of_pieces hps
  have htokens : tokens t = place 0 qs ++ place (Text.bytes (qs.flatMap Piece.text)) (p :: rs) := by
    rw [tokens, hps, place_append, Nat.zero_add]
  cases hk : p.kind with
  | token kind =>
    refine absurd ⟨hle, hlt⟩ (hout ⟨kind, Text.bytes (qs.flatMap Piece.text), p.text⟩ ?_)
    rw [htokens]
    exact List.mem_append_right _ (by simp [place, hk])
  | blank =>
    obtain ⟨c, hc, hb⟩ := hshape.of_blank hk
    have hone : Text.bytes p.text = 1 := by
      rw [hc]
      simp only [Text.isAsciiBlank, Bool.or_eq_true, beq_iff_eq] at hb
      rcases hb with (((rfl | rfl) | rfl) | rfl) | rfl <;> rfl
    exact .inl ⟨_, c, _, by rw [ht, hc]; rfl, by omega, hb⟩
  | comment =>
    refine .inr ⟨_, hshape.isComment hk ht, hle, hlt, fun k hmem => ?_⟩
    rw [htokens] at hmem
    simp only [place, hk] at hmem
    rcases List.mem_append.1 hmem with hmem | hmem
    · have := (start_le_of_mem_place hmem).2
      rw [Nat.zero_add] at this
      exact .inl this
    · exact .inr (start_le_of_mem_place hmem).1

theorem parts_tokens (t : Text) : Parts t (tokens t) where
  start_lt_stop hk := start_lt_stop_of_mem_tokens hk
  ordered := pairwise_place 0 (pieces t)
  within hk := by
    obtain ⟨a, b, ht, ha, -⟩ := shape_of_mem_tokens hk
    refine ⟨⟨a, _, ht, ha⟩, ⟨a ++ _, b, by rw [ht, List.append_assoc], ?_⟩, stop_le_of_mem_tokens hk⟩
    rw [Text.bytes_append, ha]
    rfl
  reads hk := slice?_of_mem_tokens hk
  outside hi hout := blank_or_comment hi hout
  word {k} hk hw := by
    obtain ⟨a, b, ht, ha, hshape⟩ := shape_of_mem_tokens hk
    rw [hw] at hshape
    obtain ⟨hid, hr⟩ := hshape.of_word
    refine ⟨hid, fun a' c b' ht' ha' => hr c ?_⟩
    rw [ht, ← List.append_assoc] at ht'
    have hcut : Text.bytes (a ++ k.text) = Text.bytes a' := by
      rw [ha', Text.bytes_append, ha]
      rfl
    rw [(Text.eq_of_bytes_eq ht' hcut).2]
    rfl
  sign hk hc := by
    obtain ⟨a, b, -, -, hshape⟩ := shape_of_mem_tokens hk
    exact hshape.of_sign hc
  literal {k} hk hl := by
    obtain ⟨a, b, -, -, hshape⟩ := shape_of_mem_tokens hk
    rw [hl] at hshape
    exact hshape.of_literal
  other {k} hk ho := by
    obtain ⟨a, b, ht, ha, hshape⟩ := shape_of_mem_tokens hk
    rw [ho] at hshape
    obtain ⟨c, hc, hb, hm, hi, hs⟩ := hshape.of_other
    refine ⟨c, hc, hb, hm, hi, ?_⟩
    rintro a' d b' ht' ha' ⟨rfl, hd⟩
    rw [ht, hc] at ht'
    obtain ⟨-, hcut⟩ := Text.eq_of_bytes_eq ht' (ha.trans ha'.symm)
    obtain ⟨-, rfl⟩ := List.cons.inj hcut
    obtain ⟨hslash, hstar⟩ := hs rfl d rfl
    exact hd.elim hslash hstar

end Source

end QuickFix
