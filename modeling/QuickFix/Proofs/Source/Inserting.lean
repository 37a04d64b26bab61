import QuickFix.Proofs.Source.Lexing

/-!
# Tokens put into a text

What becomes of the tokens of a text when another text is put in at a place between two of its pieces.
`PutsIn` says that the old tokens stay and the new ones stand between them.

* `Piece.EndsBefore.lastPiece`: the kinds of pieces before the place, by what they do with a text put
  in behind them;
* `putsIn_of_lets` and `lets_of_putsIn`: a text that starts a line where the old one was in a line
  puts in its tokens exactly if the piece before it keeps to itself (`Piece.Lets`).
-/

namespace QuickFix.Source

/-! ## Line ends -/

/-- The text is made of line ends. -/
def LineEnds (t : Text) : Prop := ∀ c ∈ t, c = '\r' ∨ c = '\n'

theorem LineEnds.append {a b : Text} (ha : LineEnds a) (hb : LineEnds b) : LineEnds (a ++ b) :=
  fun c hc => (List.mem_append.1 hc).elim (ha c) (hb c)

theorem LineEnds.ite {a : Text} (ha : LineEnds a) (p : Bool) : LineEnds (if p then a else []) := by
  split
  · exact ha
  · intro c hc; cases hc

/-- The text starts with a line end. -/
def StartsLine (t : Text) : Prop := ∃ s w, t = s ++ '\n' :: w ∧ ∀ c ∈ s, c = '\r'

theorem StartsLine.append {a : Text} (h : StartsLine a) (b : Text) : StartsLine (a ++ b) := by
  obtain ⟨s, w, rfl, hs⟩ := h
  exact ⟨s, w ++ b, by simp, hs⟩

theorem StartsLine.head {t : Text} (h : StartsLine t) : ∀ y ∈ t.head?, y = '\r' ∨ y = '\n' := by
  obtain ⟨s, w, rfl, hs⟩ := h
  intro y hy
  cases s with
  | nil => exact .inr (Option.some.inj hy).symm
  | cons x s =>
    obtain rfl : x = y := Option.some.inj hy
    exact .inl (hs x List.mem_cons_self)

theorem LineEnds.pieces_eq {u : Text} (h : LineEnds u) :
    pieces u = u.map fun c => ⟨.blank, [c]⟩ := by
  induction u with
  | nil => rw [pieces]; rfl
  | cons c u ih =>
    have hc : Text.isAsciiBlank c = true := by
      rcases h c List.mem_cons_self with rfl | rfl <;> decide
    rw [pieces, firstPiece_blank hc, ih fun d hd => h d (List.mem_cons_of_mem _ hd)]
    rfl

/-- Line ends are cut from what follows. -/
theorem LineEnds.pieces_append {u : Text} (h : LineEnds u) (b : Text) :
    pieces (u ++ b) = pieces u ++ pieces b := by
  refine Source.pieces_append fun p hp => ?_
  rw [h.pieces_eq, List.getLast?_map] at hp
  obtain ⟨c, hc, rfl⟩ := Option.map_eq_some_iff.1 hp
  refine blank_endsBefore ?_ b
  rcases h c (List.mem_of_getLast? hc) with rfl | rfl <;> decide

theorem LineEnds.tokens_eq {u : Text} (h : LineEnds u) : tokens u = [] := by
  have hplace : ∀ (n : Nat) (v : Text), place n (v.map fun c => ⟨.blank, [c]⟩) = [] := by
    intro n v
    induction v generalizing n with
    | nil => rfl
    | cons c v ih => exact ih _
  rw [tokens, h.pieces_eq, hplace]

/-! ## Behind the last piece -/

/-- Is the piece the rest of a text that opens a block comment and does not close it? -/
def Piece.isOpenComment (p : Piece) : Bool :=
  p.kind = .comment && match Text.after? ['/', '*'] p.text with
    | some body => !Text.contains body ['*', '/']
    | none => false

/-- The piece, last of a text before `after`, keeps to itself when `new` is put in behind it: it is no
open comment, and as a literal it goes on neither with `after` nor with `new`. -/
def Piece.Lets (p : Piece) (new after : Text) : Prop :=
  p.isOpenComment = false ∧
    (p.kind = .token .literal → p.EndsBefore after ∧ p.EndsBefore new)

theorem around?_append_eq_none {body new : Text} (h : Text.contains body ['*', '/'] = false)
    (hn : '/' ∉ new) : Text.around? ['*', '/'] (body ++ new) = none := by
  rw [Text.around?_eq_none_iff]
  rintro ⟨u, v, huv⟩
  have huv' : (u ++ ['*']) ++ '/' :: v = body ++ new := by simpa using huv
  rcases List.append_eq_append_iff.1 huv' with ⟨w, hw, hr⟩ | ⟨w, hw, hr⟩
  · cases w with
    | nil => exact hn (by rw [List.nil_append] at hr; simp [← hr])
    | cons y w =>
      obtain ⟨rfl, -⟩ := List.cons.inj hr
      have hbody : ['*', '/'] <:+: body := ⟨u, w, by rw [hw]; simp⟩
      have : Text.contains body ['*', '/'] = true := by
        rw [Text.contains, Option.isSome_iff_ne_none, ne_eq, Text.around?_eq_none_iff]
        exact not_not_intro hbody
      simp [this] at h
  · exact hn (by rw [hr]; simp)

theorem exists_of_isOpenComment {p : Piece} (h : p.isOpenComment = true) :
    ∃ body, p = ⟨.comment, '/' :: '*' :: body⟩ ∧ Text.contains body ['*', '/'] = false := by
  obtain ⟨kind, text⟩ := p
  simp only [Piece.isOpenComment, Bool.and_eq_true, decide_eq_true_eq] at h
  obtain ⟨rfl, h⟩ := h
  split at h
  · rename_i body hbody
    rw [Text.after?_eq_some_iff.1 hbody]
    exact ⟨body, rfl, by simpa using h⟩
  · cases h

/-- An open comment goes on with any text that does not close it. -/
theorem pieces_open_append {p : Piece} {new : Text} (h : p.isOpenComment = true)
    (hn : '/' ∉ new) : pieces (p.text ++ new) = [⟨.comment, p.text ++ new⟩] := by
  obtain ⟨body, rfl, hbody⟩ := exists_of_isOpenComment h
  have ht : through ['*', '/'] (body ++ new) = (body ++ new, []) := by
    rw [through, around?_append_eq_none hbody hn]
  show pieces ('/' :: '*' :: (body ++ new)) = _
  rw [pieces, firstPiece_blockComment, ht, pieces]
  rfl

theorem quote_of_literal {p : Piece} {b : Text} (h : p.EndsBefore b)
    (hp : p.kind = .token .literal) : ∃ c u, p.text = c :: u ∧ (c = '"' ∨ c = '\'') := by
  obtain ⟨c, u, hc, hf⟩ := h
  refine ⟨c, u, hc, Decidable.byContradiction fun hq => ?_⟩
  have hfst : (firstPiece c (u ++ b)).1 = p := by rw [hf]
  rw [← hfst] at hp
  unfold firstPiece at hp
  split at hp
  · cases hp
  split at hp
  · cases hp
  split at hp
  · cases hp
  split at hp
  · rename_i k hk
    unfold punctuation? at hk
    split at hk <;> cases hk <;> cases hp
  split at hp <;> cases hp

theorem literal_of_quote {p : Piece} {b u : Text} {c : Char} (h : p.EndsBefore b)
    (hp : p.text = c :: u) (hc : c = '"' ∨ c = '\'') : p.kind = .token .literal := by
  obtain ⟨d, v, hd, hf⟩ := h
  obtain ⟨rfl, rfl⟩ := List.cons.inj (hp.symm.trans hd)
  rw [firstPiece_quote hc] at hf
  rw [← (Prod.mk.inj hf).1]

theorem bytes_of_last {a : Text} {ps : List Piece} {p : Piece} (h : pieces a = ps ++ [p]) :
    Text.bytes a = Text.bytes (ps.flatMap Piece.text) + Text.bytes p.text ∧
      0 < Text.bytes p.text := by
  constructor
  · rw [eq_append_of_last h, Text.bytes_append]
  · exact Text.bytes_pos (text_ne_nil_of_mem_pieces (h ▸ List.mem_append_right ps List.mem_cons_self))

theorem getLast?_of_last {a : Text} {ps : List Piece} {p : Piece} (h : pieces a = ps ++ [p]) :
    a.getLast? = p.text.getLast? := by
  have hne := (pieces_cons (pieces_of_append h).2.1).2.1.ne_nil
  obtain ⟨c, hc⟩ := Option.isSome_iff_exists.1 (List.getLast?_isSome.2 hne)
  rw [eq_append_of_last h, List.getLast?_append, hc]
  rfl

theorem start_of_mem_place_cons {n : Nat} {p : Piece} {ps : List Piece} {k : Token}
    (h : k ∈ place n (p :: ps)) : k.start = n ∨ n + Text.bytes p.text ≤ k.start := by
  simp only [place] at h
  split at h
  · rcases List.mem_cons.1 h with rfl | h
    · exact .inl rfl
    · exact .inr (start_le_of_mem_place h).1
  · exact .inr (start_le_of_mem_place h).1

/-- A literal that goes on with the text behind it makes a token across the place between them. -/
theorem exists_across {a z : Text} {ps : List Piece} {p : Piece} (h : pieces a = ps ++ [p])
    (hp : p.kind = .token .literal) (hz : ¬ p.EndsBefore z) :
    ∃ k ∈ tokens (a ++ z), k.start < Text.bytes a ∧ Text.bytes a < k.stop := by
  obtain ⟨hz₁, q, qs, v, hq, hv, hz₂⟩ := pieces_append_of_last h z
  obtain ⟨-, hqe, -⟩ := pieces_cons hq
  obtain ⟨c, u, hc, hquote⟩ :=
    quote_of_literal (pieces_cons (pieces_of_append h).2.1).2.1 hp
  have hkind : q.kind = .token .literal :=
    literal_of_quote hqe (by rw [hv, hc]; rfl) hquote
  obtain ⟨ha, hpos⟩ := bytes_of_last h
  refine ⟨⟨.literal, Text.bytes (ps.flatMap Piece.text), q.text⟩, ?_, ?_, ?_⟩
  · rw [tokens, hz₁, hq, place_append]
    simp [place, hkind]
  · show Text.bytes (ps.flatMap Piece.text) < Text.bytes a
    omega
  · show Text.bytes a < Text.bytes (ps.flatMap Piece.text) + Text.bytes q.text
    rw [hv, ha, Text.bytes_append]
    cases v with
    | nil =>
      rw [List.append_nil] at hv
      have hqp : q = p := by
        obtain ⟨k, w⟩ := p
        obtain ⟨k', w'⟩ := q
        obtain rfl : w' = w := hv
        obtain rfl : k = .token .literal := hp
        obtain rfl : k' = .token .literal := hkind
        rfl
      rw [List.nil_append] at hz₂
      rw [hqp, ← hz₂] at hqe
      exact absurd hqe hz
    | cons x v =>
      have := x.utf8Size_pos
      rw [Text.bytes_cons]
      omega

/-- What the last piece of a text does with a text put in behind it. -/
inductive LastPiece (p : Piece) : Prop
  /-- It does not go on. -/
  | closed (ends : ∀ z, p.EndsBefore z)
  | openComment (opens : p.isOpenComment = true)
  | literal (kind : p.kind = .token .literal)
  /-- A word or a slash goes on, but not with a line end. -/
  | inLine (noLine : ∀ c ∈ p.text.getLast?, c ≠ '\n') (ends : ∀ z, StartsLine z → p.EndsBefore z)
  /-- A line comment goes on up to the line feed. -/
  | lineComment (u : Text) (eq : p = ⟨.comment, '/' :: u⟩) (head : u.head? = some '/')
      (noLine : ∀ c ∈ u, c ≠ '\n')

theorem lastPiece_blockComment {r : Text} {p : Piece} (h : firstPiece '/' ('*' :: r) = (p, [])) :
    LastPiece p := by
  rw [firstPiece_blockComment] at h
  obtain ⟨rfl, hrest⟩ := Prod.mk.inj h
  have hall : (through ['*', '/'] r).1 = r := by
    have := through_append ['*', '/'] r
    rwa [hrest, List.append_nil] at this
  rw [hall]
  cases ha : Text.around? ['*', '/'] r with
  | none =>
    refine .openComment ?_
    simp [Piece.isOpenComment, Text.after?, Text.contains, ha]
  | some s =>
    obtain ⟨a, b⟩ := s
    rw [through, ha] at hall hrest
    obtain rfl : b = [] := hrest
    have hr : a ++ ['*', '/'] = r := hall
    refine .closed fun z => ⟨'/', '*' :: r, rfl, ?_⟩
    have hz := Text.around?_append z (b := []) (by rw [List.append_nil, hr]; exact ha)
    have hthrough : through ['*', '/'] (r ++ z) = (r, z) := by
      rw [through, ← hr, List.append_assoc, hz]
    rw [List.cons_append, firstPiece_blockComment, hthrough]

theorem lastPiece_slash {u : Text} {p : Piece} (h : firstPiece '/' u = (p, [])) : LastPiece p := by
  by_cases h₁ : u.head? = some '/'
  · have hu := firstPiece_append '/' u
    rw [h, List.append_nil] at hu
    rw [firstPiece_lineComment h₁] at h
    obtain ⟨rfl, -⟩ := Prod.mk.inj h
    obtain hall : u.takeWhile (· ≠ '\n') = u := List.tail_eq_of_cons_eq hu
    rw [hall]
    refine .lineComment u rfl h₁ fun c hc => ?_
    rw [← hall] at hc
    simpa using List.all_eq_true.1 List.all_takeWhile c hc
  by_cases h₂ : u.head? = some '*'
  · obtain ⟨r, rfl⟩ := List.head?_eq_some_iff.1 h₂
    exact lastPiece_blockComment h
  · rw [firstPiece_slash h₁ h₂] at h
    obtain ⟨rfl, -⟩ := Prod.mk.inj h
    refine .inLine (fun c hc => ?_) fun z hz => ⟨'/', [], rfl, firstPiece_slash ?_ ?_⟩
    · obtain rfl : '/' = c := Option.some.inj hc
      decide
    · exact fun he => by rcases hz.head _ he with h | h <;> cases h
    · exact fun he => by rcases hz.head _ he with h | h <;> cases h

theorem lastPiece_word {w : Text} (h : Text.isIdentifier w = true) :
    LastPiece ⟨.token .word, w⟩ := by
  refine .inLine (fun c hc => ?_) fun z hz => word_endsBefore_iff.2 ⟨h, fun y hy => ?_⟩
  · obtain ⟨d, v, rfl, hd, hv⟩ := exists_of_isIdentifier h
    have hcontinue : Text.isIdentContinue c = true := by
      rcases List.mem_cons.1 (List.mem_of_getLast? hc) with rfl | hc
      · exact Text.isIdentContinue_of_isIdentStart hd
      · exact hv c hc
    rintro rfl
    exact absurd hcontinue (by decide)
  · rcases hz.head y hy with rfl | rfl <;> decide

theorem Piece.EndsBefore.lastPiece {p : Piece} (h : p.EndsBefore []) : LastPiece p := by
  obtain ⟨c, u, hc, hf⟩ := id h
  rw [List.append_nil] at hf
  rcases firstPiece_cases c with hb | rfl | ⟨k, hk⟩ | hq | hw | ho
  · rw [firstPiece_blank hb] at hf
    obtain ⟨rfl, rfl⟩ := Prod.mk.inj hf
    exact .closed (blank_endsBefore hb)
  · exact lastPiece_slash hf
  · rw [firstPiece_punctuation hk] at hf
    obtain ⟨rfl, rfl⟩ := Prod.mk.inj hf
    exact .closed fun z => ⟨c, [], rfl, firstPiece_punctuation hk z⟩
  · exact .literal (literal_of_quote h hc hq)
  · rw [firstPiece_word hw] at hf
    obtain ⟨rfl, -⟩ := Prod.mk.inj hf
    exact lastPiece_word (word_endsBefore_iff.1 h).1
  · rw [ho] at hf
    obtain ⟨rfl, rfl⟩ := Prod.mk.inj hf
    exact .closed fun z => ⟨c, [], rfl, ho z⟩

/-! ## Tokens put in -/

/-- The tokens of `r` are those of `t` with `ks` put in at offset `n`, which moves those behind it by
`m` bytes. -/
def PutsIn (ks : List Token) (n m : Nat) (t r : Text) : Prop :=
  ∃ xs ys, tokens t = xs ++ ys ∧ (∀ k ∈ xs, k.stop ≤ n) ∧ (∀ k ∈ ys, n ≤ k.start) ∧
    tokens r = xs ++ ks ++ ys.map (Token.shift m)

/-- No token stands across the place, before or after. -/
theorem PutsIn.apart {ks : List Token} {n m : Nat} {t r : Text} (h : PutsIn ks n m t r)
    (hks : ∀ k ∈ ks, n ≤ k.start) :
    (∀ k ∈ tokens t, k.stop ≤ n ∨ n ≤ k.start) ∧ ∀ k ∈ tokens r, k.stop ≤ n ∨ n ≤ k.start := by
  obtain ⟨xs, ys, ht, hxs, hys, hr⟩ := h
  rw [ht, hr]
  constructor
  · intro k hk
    exact (List.mem_append.1 hk).imp (hxs k) (hys k)
  · intro k hk
    rcases List.mem_append.1 hk with hk | hk
    · exact (List.mem_append.1 hk).imp (hxs k) (hks k)
    · obtain ⟨l, hl, rfl⟩ := List.mem_map.1 hk
      exact .inr (Nat.le_trans (hys l hl) (Nat.le_add_left ..))

/-- A text put in at a cut of another puts in its tokens. -/
theorem putsIn_of_pieces {a new b : Text} (h₁ : pieces (a ++ b) = pieces a ++ pieces b)
    (h₂ : tokens (a ++ (new ++ b)) = tokens a ++ (tokens (new ++ b)).map (Token.shift (Text.bytes a)))
    (h₃ : pieces (new ++ b) = pieces new ++ pieces b) :
    PutsIn ((tokens new).map (Token.shift (Text.bytes a))) (Text.bytes a) (Text.bytes new)
      (a ++ b) (a ++ new ++ b) := by
  refine ⟨tokens a, (tokens b).map (Token.shift (Text.bytes a)), tokens_append h₁, ?_, ?_, ?_⟩
  · exact fun k hk => stop_le_of_mem_tokens hk
  · intro k hk
    obtain ⟨l, -, rfl⟩ := List.mem_map.1 hk
    exact Nat.le_add_right ..
  · rw [List.append_assoc, h₂, tokens_append h₃, List.map_append, map_shift_map_shift,
      map_shift_map_shift, Nat.add_comm, List.append_assoc]

/-- Line ends behind a line comment belong to it or follow it, and so are no tokens. -/
theorem tokens_lineComment_append {a u z : Text} {ps : List Piece}
    (h : pieces a = ps ++ [⟨.comment, '/' :: u⟩]) (hu : u.head? = some '/')
    (hn : ∀ c ∈ u, c ≠ '\n') (hz : StartsLine z) :
    tokens (a ++ z) = tokens a ++ (tokens z).map (Token.shift (Text.bytes a)) := by
  obtain ⟨s, w, rfl, hs⟩ := hz
  have hcr : ∀ c ∈ u ++ s, c ≠ '\n' := by
    intro c hc
    rcases List.mem_append.1 hc with hc | hc
    · exact hn c hc
    · rw [hs c hc]; decide
  have hhead : ∀ v, (u ++ s ++ v).head? = some '/' := by
    intro v
    obtain ⟨r, rfl⟩ := List.head?_eq_some_iff.1 hu
    rfl
  have comment : ∀ v, (∀ y ∈ v.head?, y = '\n') →
      pieces ('/' :: u ++ (s ++ v)) = ⟨.comment, '/' :: (u ++ s)⟩ :: pieces v := by
    intro v hv
    obtain ⟨h₁, h₂⟩ := takeWhile_append_of_head (f := (· ≠ '\n')) (t := u ++ s) (b := v)
      (fun c hc => decide_eq_true (hcr c hc)) (fun y hy => decide_eq_false (not_not_intro (hv y hy)))
    rw [List.cons_append, ← List.append_assoc, pieces, firstPiece_lineComment (hhead v), h₁, h₂]
  have hlast := (pieces_append_of_last h (s ++ '\n' :: w)).1
  have hcut : pieces (a ++ s ++ '\n' :: w) = pieces (a ++ s) ++ pieces ('\n' :: w) := by
    have hself := (pieces_append_of_last h s).1
    have hs' := comment [] fun y hy => by cases hy
    rw [List.append_nil, pieces] at hs'
    rw [List.append_assoc, hlast, hself, hs',
      comment ('\n' :: w) fun y hy => (Option.some.inj hy).symm]
    simp
  have hs' : LineEnds s := fun c hc => .inl (hs c hc)
  have htokens : tokens (a ++ s) = tokens a := by
    have hself := (pieces_append_of_last h s).1
    have hcomment := comment [] fun y hy => by cases hy
    rw [List.append_nil, pieces] at hcomment
    rw [tokens, tokens, hself, hcomment, h, place_append, place_append]
    simp [place]
  rw [← List.append_assoc, tokens_append hcut, tokens_append (hs'.pieces_append _), hs'.tokens_eq,
    htokens, List.nil_append, map_shift_map_shift, Text.bytes_append]

/-- No token starts in a text put in behind an open comment. -/
theorem start_of_mem_open {a new b : Text} {ps : List Piece} {p : Piece}
    (h : pieces a = ps ++ [p]) (hopen : p.isOpenComment = true) (hslash : '/' ∉ new) {k : Token}
    (hk : k ∈ tokens (a ++ new ++ b)) :
    k.start < Text.bytes a ∨ Text.bytes a + Text.bytes new ≤ k.start := by
  have hcomment := (pieces_append_of_last h new).1
  rw [pieces_open_append hopen hslash] at hcomment
  obtain ⟨hr, q, qs, v, hq, hv, -⟩ := pieces_append_of_last hcomment b
  obtain ⟨ha, hpos⟩ := bytes_of_last h
  -- the comment starts before that text and ends behind it
  have hbytes : Text.bytes q.text = Text.bytes p.text + Text.bytes new + Text.bytes v := by
    rw [hv, Text.bytes_append, Text.bytes_append]
  rw [tokens, hr, hq, place_append, Nat.zero_add] at hk
  rcases List.mem_append.1 hk with hk | hk
  · have h₁ := (start_le_of_mem_place hk).2
    have h₂ : k.start ≤ k.stop := Nat.le_add_right ..
    omega
  · have := start_of_mem_place_cons hk
    omega

theorem ne_nil_of_tokens {t : Text} (h : tokens t ≠ []) : t ≠ [] := by
  rintro rfl
  exact h (by rw [tokens, pieces]; rfl)

section

variable {a new b : Text} (hne : tokens new ≠ [])

include hne

/-- Where the last piece of a text keeps to itself, the tokens put in behind it are all that is new. -/
theorem putsIn_of_lets (hcut : pieces (new ++ b) = pieces new ++ pieces b)
    (hb : b = [] ∨ ∀ c ∈ a.getLast?, c = '\n')
    (hnew : ∀ c ∈ a.getLast?, c ≠ '\n' → StartsLine new)
    (h : ∀ p ∈ (pieces a).getLast?, p.Lets new b) :
    PutsIn ((tokens new).map (Token.shift (Text.bytes a))) (Text.bytes a) (Text.bytes new)
      (a ++ b) (a ++ new ++ b) := by
  have of_endsBefore (hp : ∀ p ∈ (pieces a).getLast?, p.EndsBefore b ∧ p.EndsBefore (new ++ b)) :
      PutsIn ((tokens new).map (Token.shift (Text.bytes a))) (Text.bytes a) (Text.bytes new)
        (a ++ b) (a ++ new ++ b) :=
    putsIn_of_pieces (pieces_append fun p hm => (hp p hm).1)
      (tokens_append (pieces_append fun p hm => (hp p hm).2)) hcut
  cases hlast : (pieces a).getLast? with
  | none => exact of_endsBefore fun p hp => by rw [hlast] at hp; cases hp
  | some p =>
    have one (hp : p.EndsBefore b ∧ p.EndsBefore (new ++ b)) :=
      of_endsBefore fun r hr => by
        rw [hlast] at hr
        obtain rfl := Option.some.inj hr
        exact hp
    obtain ⟨ps, hps⟩ := List.getLast?_eq_some_iff.1 hlast
    obtain ⟨hopen, hliteral⟩ := h p hlast
    have hend : p.EndsBefore [] := (pieces_cons (pieces_of_append hps).2.1).2.1
    -- a text that does not end with a line feed is all of the old text
    have line : (∀ c ∈ p.text.getLast?, c ≠ '\n') → b = [] ∧ StartsLine new := by
      intro hn
      obtain ⟨c, hc⟩ := Option.isSome_iff_exists.1 (List.getLast?_isSome.2 hend.ne_nil)
      have ha : c ∈ a.getLast? := by rwa [getLast?_of_last hps]
      exact ⟨hb.resolve_right fun h => hn c hc (h c ha), hnew c ha (hn c hc)⟩
    cases hend.lastPiece with
    | closed ends => exact one ⟨ends b, ends _⟩
    | openComment opens => rw [hopen] at opens; cases opens
    | literal kind =>
      obtain ⟨hafter, hbefore⟩ := hliteral kind
      exact one ⟨hafter, (Piece.EndsBefore.append_iff (ne_nil_of_tokens hne) b).2 hbefore⟩
    | inLine noLine ends =>
      obtain ⟨rfl, hstarts⟩ := line noLine
      exact one ⟨hend, ends _ (hstarts.append _)⟩
    | lineComment u eq head noLine =>
      subst eq
      obtain ⟨rfl, hstarts⟩ := line fun c hc => by
        rcases List.mem_cons.1 (List.mem_of_getLast? hc) with rfl | hc
        · decide
        · exact noLine c hc
      refine putsIn_of_pieces (by rw [List.append_nil, pieces, List.append_nil]) ?_ hcut
      exact tokens_lineComment_append hps head noLine (hstarts.append _)

/-- Where nothing but the tokens put in behind a text is new, its last piece keeps to itself. -/
theorem lets_of_putsIn {p : Piece} (hslash : '/' ∉ new)
    (h : PutsIn ((tokens new).map (Token.shift (Text.bytes a))) (Text.bytes a) (Text.bytes new)
      (a ++ b) (a ++ new ++ b)) (hp : p ∈ (pieces a).getLast?) : p.Lets new b := by
  obtain ⟨ps, hps⟩ := List.getLast?_eq_some_iff.1 hp
  have hks : ∀ k ∈ (tokens new).map (Token.shift (Text.bytes a)), Text.bytes a ≤ k.start := by
    intro k hk
    obtain ⟨l, -, rfl⟩ := List.mem_map.1 hk
    exact Nat.le_add_right ..
  have not_across : ∀ {z : Text}, (∀ k ∈ tokens (a ++ z), k.stop ≤ Text.bytes a ∨
      Text.bytes a ≤ k.start) → p.kind = .token .literal → p.EndsBefore z := by
    intro z hz hl
    refine Classical.byContradiction fun hn => ?_
    obtain ⟨k, hk, h₁, h₂⟩ := exists_across hps hl hn
    rcases hz k hk with h | h <;> omega
  obtain ⟨happart, happart'⟩ := h.apart hks
  constructor
  · rw [← Bool.not_eq_true]
    intro hopen
    obtain ⟨k, hk⟩ := List.exists_mem_of_ne_nil _ hne
    have hmem : k.shift (Text.bytes a) ∈ tokens (a ++ new ++ b) := by
      obtain ⟨xs, ys, -, -, -, htokens⟩ := h
      rw [htokens]
      exact List.mem_append_left _ (List.mem_append_right _ (List.mem_map_of_mem hk))
    have hlt : k.start < Text.bytes new :=
      Nat.lt_of_lt_of_le (start_lt_stop_of_mem_tokens hk) (stop_le_of_mem_tokens hk)
    have := start_of_mem_open hps hopen hslash hmem
    rw [Token.start_shift] at this
    omega
  · intro hl
    have hboth : p.EndsBefore (new ++ b) :=
      not_across (by rwa [List.append_assoc] at happart') hl
    exact ⟨not_across happart hl, (Piece.EndsBefore.append_iff (ne_nil_of_tokens hne) b).1 hboth⟩

end

end QuickFix.Source
