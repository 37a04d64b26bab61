import QuickFix.Source.Token

/-!
# Places between pieces

Where a text is cut into pieces is a local matter. `Piece.EndsBefore` says that a piece is the first
one of a text that goes on with a given rest; for a rest that is not empty only its first character
counts, and few characters at that (`Piece.EndsBefore.swap`). From it:

* `pieces_append`: a text is cut into the pieces of its two parts if the last piece of the first part
  ends before the second;
* `pieces_of_append`: where a text is cut, each part is cut on its own in the same way;
* `tokens_append` and `exists_split_of_tokens`: the same for tokens, which keep their offsets before
  the place and are moved behind it.
-/

namespace QuickFix

namespace Text

/-! ## The first occurrence -/

theorem after?_eq_none_iff {p t : Text} : after? p t = none ↔ ¬ p <+: t := by
  rw [Option.eq_none_iff_forall_ne_some]
  constructor
  · rintro h ⟨r, rfl⟩
    exact h r (after?_eq_some_iff.2 rfl)
  · rintro h r hr
    exact h ⟨r, (after?_eq_some_iff.1 hr).symm⟩

/-- Whether `p` stands at the start of a text that is long enough does not depend on its end. -/
theorem after?_append_eq_none {p a b : Text} (b' : Text) (hl : p.length ≤ a.length)
    (h : after? p (a ++ b) = none) : after? p (a ++ b') = none := by
  rw [after?_eq_none_iff] at h ⊢
  intro hp
  have ha : p <+: a := List.prefix_of_prefix_length_le hp (List.prefix_append a b') hl
  exact h (ha.trans (List.prefix_append a b))

theorem around?_of_after? {p t r : Text} (h : after? p t = some r) : around? p t = some ([], r) := by
  cases t with
  | nil =>
    obtain ⟨rfl, rfl⟩ := List.append_eq_nil_iff.1 (after?_eq_some_iff.1 h).symm
    rfl
  | cons c t => simp only [around?, h]

theorem around?_cons_of_none {p t : Text} {c : Char} (h : after? p (c :: t) = none) :
    around? p (c :: t) = (around? p t).map fun (a, b) => (c :: a, b) := by
  simp only [around?, h]

/-- The search finds nothing exactly if there is nothing to find. -/
theorem around?_eq_none_iff {p t : Text} : around? p t = none ↔ ¬ p <:+: t := by
  constructor
  · rintro h ⟨a, b, rfl⟩
    induction a with
    | nil =>
      rw [List.nil_append, around?_of_after? (after?_eq_some_iff.2 rfl)] at h
      cases h
    | cons c a ih =>
      rw [List.cons_append, List.cons_append] at h
      cases hn : after? p (c :: (a ++ p ++ b)) with
      | some r => rw [around?_of_after? hn] at h; cases h
      | none =>
        rw [around?_cons_of_none hn, Option.map_eq_none_iff] at h
        exact ih h
  · intro h
    cases hs : around? p t with
    | none => rfl
    | some s => exact absurd ⟨s.1, s.2, (eq_append_of_around? hs).symm⟩ h

/-- The first occurrence stays the first when what follows it changes. -/
theorem around?_append {p a b : Text} (b' : Text) (h : around? p (a ++ (p ++ b)) = some (a, b)) :
    around? p (a ++ (p ++ b')) = some (a, b') := by
  induction a with
  | nil => exact around?_of_after? (after?_eq_some_iff.2 rfl)
  | cons c a ih =>
    rw [List.cons_append] at h ⊢
    cases hn : after? p (c :: (a ++ (p ++ b))) with
    | some r => rw [around?_of_after? hn] at h; cases h
    | none =>
      rw [around?_cons_of_none hn] at h
      obtain ⟨⟨a₁, b₁⟩, h₁, he⟩ := Option.map_eq_some_iff.1 h
      cases he
      have hn' : after? p ((c :: a ++ p) ++ b') = none := by
        apply after?_append_eq_none (b := b) b' (by simp; omega)
        simpa using hn
      rw [around?_cons_of_none (by simpa using hn'), ih h₁]
      rfl

end Text

namespace Source

/-! ## Marks and quotes -/

theorem through_swap {m a b : Text} {x : Char} (b' : Text)
    (h : through m (a ++ x :: b) = (a, x :: b)) : through m (a ++ b') = (a, b') := by
  unfold through at h
  split at h
  · rename_i a₁ b₁ h₁
    obtain ⟨rfl, rfl⟩ := Prod.mk.injEq .. ▸ h
    have h₂ := Text.around?_append b' (by simpa using h₁)
    rw [through, List.append_assoc, h₂]
  · simp at h

theorem quoted_cons {q c : Char} (hc : c ≠ '\\') (t : Text) :
    quoted q (c :: t) = if c = '\n' then ([], c :: t) else if c = q then ([c], t)
      else (c :: (quoted q t).1, (quoted q t).2) := by
  rw [quoted] <;> simp [hc]

theorem quoted_swap {q x : Char} {t b : Text} (b' : Text)
    (h : quoted q (t ++ x :: b) = (t, x :: b)) (hx : x = '\n' → ∀ y ∈ b'.head?, y = '\n') :
    quoted q (t ++ b') = (t, b') := by
  generalize hu : t ++ x :: b = u at h
  fun_induction quoted q u generalizing t with
  | case1 => simp at hu
  | case2 => cases h
  | case3 c u ih =>
    obtain ⟨rfl, hr⟩ := Prod.mk.injEq .. ▸ h
    have hu' : (quoted q u).1 ++ x :: b = u := by rw [← hr]; exact quoted_append q u
    rw [List.cons_append, List.cons_append, quoted, ih hu' (by rw [← hr])]
  | case4 u =>
    cases h
    cases b' with
    | nil => rfl
    | cons y b' =>
      obtain rfl := hx rfl y rfl
      simp [quoted]
  | case5 u h₁ h₂ h₃ =>
    cases h
    have hq : q ≠ '\\' := fun he => h₂ x b he rfl
    simp [quoted_cons hq, h₃]
  | case6 c u h₁ h₂ h₃ h₄ ih =>
    obtain ⟨rfl, hr⟩ := Prod.mk.injEq .. ▸ h
    have hu' : (quoted q u).1 ++ x :: b = u := by rw [← hr]; exact quoted_append q u
    have hc : c ≠ '\\' := fun he => by
      cases u with
      | nil => exact h₁ he rfl
      | cons d u => exact h₂ d u he rfl
    simp [quoted_cons hc, h₃, h₄, ih hu' (by rw [← hr])]

theorem literal_block (q : Char) (r : Text) :
    literal q (q :: q :: r) = (q :: q :: (through [q, q, q] r).1, (through [q, q, q] r).2) := by
  simp [literal]

theorem literal_eq_quoted {q : Char} {t : Text} (h : ∀ r, t ≠ q :: q :: r) :
    literal q t = quoted q t := by
  unfold literal
  split
  · rename_i c d r
    split
    · rename_i hq
      simp only [Bool.and_eq_true, decide_eq_true_eq] at hq
      exact absurd (by rw [hq.1, hq.2]) (h r)
    · rfl
  · rfl

/-- Only a line feed makes a quoted literal end where nothing has been read. -/
theorem eq_of_quoted_eq_nil {q x : Char} {b : Text} (h : quoted q (x :: b) = ([], x :: b)) :
    x = '\n' := by
  have hx : x ≠ '\\' := by
    rintro rfl
    cases b <;> simp [quoted] at h
  rw [quoted_cons hx] at h
  split at h
  · assumption
  · split at h <;> simp at h

theorem literal_swap {q x : Char} {t b : Text} (b' : Text) (hq : q ≠ '\n')
    (h : literal q (t ++ x :: b) = (t, x :: b))
    (hy : ∀ y ∈ b'.head?, y = x ∨ x ≠ '\n' ∧ y ≠ q) : literal q (t ++ b') = (t, b') := by
  by_cases hb : ∃ r, t ++ x :: b = q :: q :: r
  · obtain ⟨r, hr⟩ := hb
    rw [hr, literal_block] at h
    obtain ⟨rfl, h₂⟩ := Prod.mk.injEq .. ▸ h
    have hr' : (through [q, q, q] r).1 ++ x :: b = r := by simpa using hr
    have ht : through [q, q, q] ((through [q, q, q] r).1 ++ x :: b) =
        ((through [q, q, q] r).1, x :: b) := by rw [hr', ← h₂]
    rw [List.cons_append, List.cons_append, literal_block, through_swap b' ht]
  · rw [literal_eq_quoted fun r hr => hb ⟨r, hr⟩] at h
    rw [literal_eq_quoted, quoted_swap b' h]
    · intro hx y hm
      rcases hy y hm with rfl | ⟨hn, -⟩
      · exact hx
      · exact absurd hx hn
    -- the block cannot open where it did not open before: its quotes would stand in `t` or be `x`
    · intro r hr
      rcases t with _ | ⟨c, _ | ⟨d, t⟩⟩
      · obtain rfl := eq_of_quoted_eq_nil h
        rcases hy q (by rw [List.nil_append] at hr; rw [hr]; rfl) with he | ⟨hn, -⟩
        · exact hq he
        · exact hn rfl
      · rw [List.cons_append, List.cons.injEq] at hr
        rcases hy q (by rw [← List.nil_append b', hr.2]; rfl) with rfl | ⟨-, hn⟩
        · exact hb ⟨b, by rw [hr.1]; rfl⟩
        · exact hn rfl
      · simp only [List.cons_append, List.cons.injEq] at hr
        exact hb ⟨t ++ x :: b, by rw [hr.1, hr.2.1]; rfl⟩

/-! ## The first piece, by its first character -/

theorem firstPiece_blank {c : Char} (h : Text.isAsciiBlank c = true) (t : Text) :
    firstPiece c t = (⟨.blank, [c]⟩, t) := by
  simp [firstPiece, h]

theorem firstPiece_lineComment {t : Text} (h : t.head? = some '/') :
    firstPiece '/' t = (⟨.comment, '/' :: t.takeWhile (· ≠ '\n')⟩, t.dropWhile (· ≠ '\n')) := by
  have hb : Text.isAsciiBlank '/' = false := by decide
  simp [firstPiece, hb, h]

theorem firstPiece_blockComment (t : Text) :
    firstPiece '/' ('*' :: t) =
      (⟨.comment, '/' :: '*' :: (through ['*', '/'] t).1⟩, (through ['*', '/'] t).2) := by
  have hb : Text.isAsciiBlank '/' = false := by decide
  simp [firstPiece, hb]

theorem isAsciiBlank_of_punctuation? {c : Char} {k : TokenKind} (h : punctuation? c = some k) :
    Text.isAsciiBlank c = false := by
  unfold punctuation? at h
  split at h <;> first | decide | cases h

theorem firstPiece_punctuation {c : Char} {k : TokenKind} (h : punctuation? c = some k)
    (t : Text) : firstPiece c t = (⟨.token k, [c]⟩, t) := by
  have hb := isAsciiBlank_of_punctuation? h
  have hc : c ≠ '/' := by rintro rfl; cases h
  simp [firstPiece, hb, hc, h]

theorem firstPiece_quote {q : Char} (h : q = '"' ∨ q = '\'') (t : Text) :
    firstPiece q t = (⟨.token .literal, q :: (literal q t).1⟩, (literal q t).2) := by
  have hb : Text.isAsciiBlank q = false := by rcases h with rfl | rfl <;> decide
  have hc : q ≠ '/' := by rcases h with rfl | rfl <;> decide
  have hp : punctuation? q = none := by rcases h with rfl | rfl <;> rfl
  simp [firstPiece, hb, hc, hp, h]

theorem isAsciiBlank_of_isIdentContinue {c : Char} (h : Text.isIdentContinue c = true) :
    Text.isAsciiBlank c = false := by
  refine Bool.eq_false_iff.2 fun hb => ?_
  simp only [Text.isAsciiBlank, Bool.or_eq_true, beq_iff_eq] at hb
  rcases hb with (((rfl | rfl) | rfl) | rfl) | rfl <;> exact absurd h (by decide)

theorem firstPiece_word {c : Char} (h : Text.isIdentStart c = true) (t : Text) :
    firstPiece c t =
      (⟨.token .word, c :: t.takeWhile Text.isIdentContinue⟩,
        t.dropWhile Text.isIdentContinue) := by
  have hne : ∀ d : Char, Text.isIdentStart d = false → c ≠ d := by
    rintro d hd rfl
    rw [h] at hd; cases hd
  have hb := isAsciiBlank_of_isIdentContinue (Text.isIdentContinue_of_isIdentStart h)
  have hp : punctuation? c = none := by
    unfold punctuation?
    split <;> first | rfl | exact absurd rfl (hne _ (by decide))
  simp [firstPiece, hb, hne '/' (by decide), hne '"' (by decide), hne '\'' (by decide), hp, h]

theorem firstPiece_slash {t : Text} (h₁ : t.head? ≠ some '/') (h₂ : t.head? ≠ some '*') :
    firstPiece '/' t = (⟨.token .other, ['/']⟩, t) := by
  have hb : Text.isAsciiBlank '/' = false := by decide
  have hp : punctuation? '/' = none := rfl
  have hi : Text.isIdentStart '/' = false := by decide
  simp [firstPiece, hb, h₁, h₂, hp, hi]

/-- The kinds of first characters. -/
theorem firstPiece_cases (c : Char) :
    Text.isAsciiBlank c = true ∨ c = '/' ∨ (∃ k, punctuation? c = some k) ∨
      (c = '"' ∨ c = '\'') ∨ Text.isIdentStart c = true ∨
        ∀ t, firstPiece c t = (⟨.token .other, [c]⟩, t) := by
  by_cases hb : Text.isAsciiBlank c = true
  · exact .inl hb
  by_cases hs : c = '/'
  · exact .inr (.inl hs)
  cases hp : punctuation? c with
  | some k => exact .inr (.inr (.inl ⟨k, rfl⟩))
  | none =>
    by_cases hq : c = '"' ∨ c = '\''
    · exact .inr (.inr (.inr (.inl hq)))
    by_cases hi : Text.isIdentStart c = true
    · exact .inr (.inr (.inr (.inr (.inl hi))))
    · exact .inr (.inr (.inr (.inr (.inr fun t => by simp [firstPiece, hb, hs, hp, hq, hi]))))

/-! ## Where a piece ends -/

/-- The piece is the first one of a text that goes on with `rest`. -/
def Piece.EndsBefore (p : Piece) (rest : Text) : Prop :=
  ∃ c t, p.text = c :: t ∧ firstPiece c (t ++ rest) = (p, rest)

/-- A text that starts with `y` may stand behind the piece where one that starts with `x` did. -/
def Piece.Admits (p : Piece) (x y : Char) : Prop :=
  y = x ∨ x ≠ '\n' ∧ y ∉ ['"', '\'', '/', '*'] ∧
    (p.kind = .token .word → Text.isIdentContinue y = false)

theorem takeWhile_append_of_head {f : Char → Bool} {t b : Text} (ht : ∀ c ∈ t, f c = true)
    (hb : ∀ y ∈ b.head?, f y = false) : (t ++ b).takeWhile f = t ∧ (t ++ b).dropWhile f = b := by
  rw [List.takeWhile_append_of_pos ht, List.dropWhile_append_of_pos ht]
  cases b with
  | nil => simp
  | cons y b => simp [hb y rfl]

/-- The run of characters with `f` that a text starts with, and the first character behind it. -/
theorem of_takeWhile_dropWhile (f : Char → Bool) (t : Text) :
    (∀ c ∈ t.takeWhile f, f c = true) ∧ ∀ c ∈ (t.dropWhile f).head?, f c = false := by
  have hhead := List.head?_dropWhile_not f t
  exact ⟨fun c hc => List.all_eq_true.1 List.all_takeWhile c hc, fun c hc => by rwa [hc] at hhead⟩

/-- The run of characters that a piece takes, and the first one that it does not take. -/
theorem of_takeWhile_eq {f : Char → Bool} {t b : Text} {x : Char}
    (h : (t ++ x :: b).takeWhile f = t) : (∀ c ∈ t, f c = true) ∧ f x = false := by
  have ht : ∀ c ∈ t, f c = true := fun c hc => (of_takeWhile_dropWhile f _).1 c (h ▸ hc)
  refine ⟨ht, ?_⟩
  rw [List.takeWhile_append_of_pos ht, List.takeWhile_cons] at h
  cases hx : f x with
  | false => rfl
  | true => simp [hx] at h

namespace Piece.EndsBefore

theorem ne_nil {p : Piece} {b : Text} (h : p.EndsBefore b) : p.text ≠ [] := by
  obtain ⟨c, t, ht, -⟩ := h
  simp [ht]

theorem pieces_eq {p : Piece} {b : Text} (h : p.EndsBefore b) :
    pieces (p.text ++ b) = p :: pieces b := by
  obtain ⟨c, t, ht, hf⟩ := h
  rw [ht, List.cons_append, pieces, hf]

/-- `swap` for comments and the slash. -/
theorem swap_slash {p : Piece} {x : Char} {t b b' : Text} (ht : p.text = '/' :: t)
    (hf : firstPiece '/' (t ++ x :: b) = (p, x :: b)) (hy : ∀ y ∈ b'.head?, p.Admits x y) :
    firstPiece '/' (t ++ b') = (p, b') := by
  by_cases h₁ : (t ++ x :: b).head? = some '/'
  · rw [firstPiece_lineComment h₁] at hf
    obtain ⟨rfl, -⟩ := Prod.mk.injEq .. ▸ hf
    obtain hl : (t ++ x :: b).takeWhile (· ≠ '\n') = t := by simpa using ht
    obtain ⟨hall, hx⟩ := of_takeWhile_eq hl
    obtain rfl : x = '\n' := by simpa using hx
    have hb : ∀ y ∈ b'.head?, decide (y ≠ '\n') = false := by
      intro y hm
      rcases hy y hm with rfl | ⟨hn, -⟩
      · exact hx
      · exact absurd rfl hn
    obtain ⟨h₂, h₃⟩ := takeWhile_append_of_head hall hb
    have hh : (t ++ b').head? = some '/' := by
      cases t with
      | nil => cases h₁
      | cons d t => exact h₁
    rw [firstPiece_lineComment hh, h₂, h₃, hl]
  by_cases h₂ : (t ++ x :: b).head? = some '*'
  · obtain ⟨r, hr⟩ := List.head?_eq_some_iff.1 h₂
    rw [hr, firstPiece_blockComment] at hf
    obtain ⟨rfl, hb⟩ := Prod.mk.injEq .. ▸ hf
    obtain rfl : '*' :: (through ['*', '/'] r).1 = t := by simpa using ht
    have hr' : (through ['*', '/'] r).1 ++ x :: b = r := by simpa using hr
    have hm : through ['*', '/'] ((through ['*', '/'] r).1 ++ x :: b) =
        ((through ['*', '/'] r).1, x :: b) := by rw [hr', ← hb]
    rw [List.cons_append, firstPiece_blockComment, through_swap b' hm]
  · rw [firstPiece_slash h₁ h₂] at hf
    obtain ⟨rfl, -⟩ := Prod.mk.injEq .. ▸ hf
    obtain rfl : t = [] := by simpa using ht.symm
    have hb : ∀ y ∈ b'.head?, y ≠ '/' ∧ y ≠ '*' := by
      intro y hm
      rcases hy y hm with rfl | ⟨-, hs, -⟩
      · exact ⟨fun he => h₁ (by simp [he]), fun he => h₂ (by simp [he])⟩
      · exact ⟨fun he => hs (by simp [he]), fun he => hs (by simp [he])⟩
    exact firstPiece_slash (fun he => (hb _ he).1 rfl) fun he => (hb _ he).2 rfl

/-- `swap` for all that does not start with a slash: only a quote could go on a literal, and only a
character of identifiers a word. -/
theorem swap_other {p : Piece} {c x : Char} {t b b' : Text} (hne : c ≠ '/') (ht : p.text = c :: t)
    (hf : firstPiece c (t ++ x :: b) = (p, x :: b))
    (hy : ∀ y ∈ b'.head?, y = x ∨ x ≠ '\n' ∧ y ∉ ['"', '\''] ∧
      (p.kind = .token .word → Text.isIdentContinue y = false)) :
    firstPiece c (t ++ b') = (p, b') := by
  rcases firstPiece_cases c with hc | rfl | ⟨k, hc⟩ | hc | hc | hc
  · rw [firstPiece_blank hc] at hf
    obtain ⟨rfl, -⟩ := Prod.mk.injEq .. ▸ hf
    obtain rfl : t = [] := by simpa using ht.symm
    exact firstPiece_blank hc b'
  · exact absurd rfl hne
  · rw [firstPiece_punctuation hc] at hf
    obtain ⟨rfl, -⟩ := Prod.mk.injEq .. ▸ hf
    obtain rfl : t = [] := by simpa using ht.symm
    exact firstPiece_punctuation hc b'
  · rw [firstPiece_quote hc] at hf
    obtain ⟨rfl, hr⟩ := Prod.mk.injEq .. ▸ hf
    obtain hl : (literal c (t ++ x :: b)).1 = t := by simpa using ht
    have hl' : literal c (t ++ b') = (t, b') := by
      apply literal_swap b' (by rcases hc with rfl | rfl <;> decide) (Prod.ext hl hr)
      intro y hm
      refine (hy y hm).imp_right fun ⟨hn, hs, _⟩ => ⟨hn, ?_⟩
      rintro rfl
      rcases hc with rfl | rfl <;> simp at hs
    rw [firstPiece_quote hc, hl', hl]
  · rw [firstPiece_word hc] at hf
    obtain ⟨rfl, hr⟩ := Prod.mk.injEq .. ▸ hf
    obtain hl : (t ++ x :: b).takeWhile Text.isIdentContinue = t := by simpa using ht
    obtain ⟨hall, hx⟩ := of_takeWhile_eq hl
    obtain ⟨h₁, h₂⟩ : (t ++ b').takeWhile Text.isIdentContinue = t ∧
        (t ++ b').dropWhile Text.isIdentContinue = b' := by
      apply takeWhile_append_of_head hall
      intro y hm
      rcases hy y hm with rfl | ⟨-, -, hw⟩
      · exact hx
      · exact hw rfl
    rw [firstPiece_word hc, h₁, h₂, hl]
  · rw [hc] at hf
    obtain ⟨rfl, -⟩ := Prod.mk.injEq .. ▸ hf
    obtain rfl : t = [] := by simpa using ht.symm
    exact hc b'

/-- What stands behind a piece may be changed as long as its first character is one that the piece
admits. -/
theorem swap {p : Piece} {x : Char} {b b' : Text} (h : p.EndsBefore (x :: b))
    (hy : ∀ y ∈ b'.head?, p.Admits x y) : p.EndsBefore b' := by
  obtain ⟨c, t, ht, hf⟩ := h
  refine ⟨c, t, ht, ?_⟩
  by_cases hc : c = '/'
  · subst hc
    exact swap_slash ht hf hy
  · refine swap_other hc ht hf fun y hm => (hy y hm).imp_right fun ⟨hn, hs, hw⟩ => ⟨hn, ?_, hw⟩
    exact fun hq => hs (List.mem_append_left ['/', '*'] hq)

/-- A comment may stand where something else did, but for behind a slash. -/
theorem swap_comment {p : Piece} {x : Char} {b : Text} (b' : Text) (h : p.EndsBefore (x :: b))
    (hx : x ≠ '\n') (hp : p.text ≠ ['/']) : p.EndsBefore ('/' :: b') := by
  obtain ⟨c, t, ht, hf⟩ := h
  refine ⟨c, t, ht, ?_⟩
  by_cases hc : c = '/'
  · subst hc
    by_cases h₁ : (t ++ x :: b).head? = some '/'
    · -- a comment on one line would have ended at a line feed
      rw [firstPiece_lineComment h₁] at hf
      obtain ⟨rfl, -⟩ := Prod.mk.injEq .. ▸ hf
      obtain hl : (t ++ x :: b).takeWhile (· ≠ '\n') = t := by simpa using ht
      exact absurd (of_decide_eq_false (of_takeWhile_eq hl).2) (not_not_intro hx)
    by_cases h₂ : (t ++ x :: b).head? = some '*'
    · cases t with
      | nil =>
        obtain rfl : x = '*' := Option.some.inj h₂
        rw [List.nil_append, firstPiece_blockComment] at hf
        have := congrArg Piece.text (Prod.mk.inj hf).1
        rw [ht] at this
        cases this
      | cons d t =>
        obtain rfl : d = '*' := Option.some.inj h₂
        rw [List.cons_append, firstPiece_blockComment] at hf
        obtain ⟨rfl, hr⟩ := Prod.mk.injEq .. ▸ hf
        have hm : through ['*', '/'] (t ++ x :: b) = (t, x :: b) :=
          Prod.ext (by simpa using ht) hr
        rw [List.cons_append, firstPiece_blockComment, through_swap ('/' :: b') hm, hm]
    · rw [firstPiece_slash h₁ h₂] at hf
      obtain ⟨rfl, -⟩ := Prod.mk.injEq .. ▸ hf
      exact absurd rfl hp
  · refine swap_other hc ht hf fun y hm => .inr ⟨hx, ?_, fun _ => ?_⟩
    · obtain rfl := Option.some.inj hm
      decide
    · obtain rfl := Option.some.inj hm
      decide

/-- Only the start of what stands behind a piece counts. -/
theorem append_iff {p : Piece} {a : Text} (ha : a ≠ []) (b : Text) :
    p.EndsBefore (a ++ b) ↔ p.EndsBefore a := by
  obtain ⟨x, u, rfl⟩ := List.exists_cons_of_ne_nil ha
  exact ⟨fun h => h.swap fun y hy => .inl (Option.some.inj hy).symm,
    fun h => h.swap fun y hy => .inl (Option.some.inj hy).symm⟩

theorem of_append {p : Piece} {a b : Text} (h : p.EndsBefore (a ++ b)) : p.EndsBefore a := by
  cases a with
  | nil =>
    cases b with
    | nil => exact h
    | cons x b => exact h.swap fun y hy => by cases hy
  | cons x a => exact (append_iff (List.cons_ne_nil x a) b).1 h

/-- A word may stand where something else did that did not go on a word. -/
theorem swap_word {p : Piece} {x y : Char} {b b' : Text} (h : p.EndsBefore (x :: b))
    (hx : x ≠ '\n') (hp : p.kind ≠ .token .word) (hy : Text.isIdentStart y = true) :
    p.EndsBefore (y :: b') := by
  refine h.swap fun z hz => .inr ⟨hx, ?_, fun hk => absurd hk hp⟩
  obtain rfl : y = z := Option.some.inj hz
  intro hm
  have hall : (['"', '\'', '/', '*'].all fun c => !Text.isIdentStart c) = true := by decide
  have hn := List.all_eq_true.1 hall y hm
  rw [hy] at hn
  cases hn

end Piece.EndsBefore

theorem blank_endsBefore {c : Char} (h : Text.isAsciiBlank c = true) (b : Text) :
    Piece.EndsBefore ⟨.blank, [c]⟩ b := ⟨c, [], rfl, firstPiece_blank h b⟩

theorem exists_of_isIdentifier {w : Text} (h : Text.isIdentifier w = true) :
    ∃ c t, w = c :: t ∧ Text.isIdentStart c = true ∧ ∀ d ∈ t, Text.isIdentContinue d = true := by
  cases w with
  | nil => cases h
  | cons c t =>
    simp only [Text.isIdentifier, Bool.and_eq_true, List.all_eq_true] at h
    exact ⟨c, t, rfl, h.1, h.2⟩

theorem not_mem_of_isIdentifier {w : Text} {c : Char} (h : Text.isIdentifier w = true)
    (hc : Text.isIdentContinue c = false) : c ∉ w := by
  obtain ⟨x, t, rfl, hx, ht⟩ := exists_of_isIdentifier h
  intro hmem
  rcases List.mem_cons.1 hmem with rfl | hmem
  · rw [Text.isIdentContinue_of_isIdentStart hx] at hc
    cases hc
  · rw [ht c hmem] at hc
    cases hc

/-- A word is an identifier that does not go on. -/
theorem word_endsBefore_iff {w b : Text} : Piece.EndsBefore ⟨.token .word, w⟩ b ↔
    Text.isIdentifier w = true ∧ ∀ y ∈ b.head?, Text.isIdentContinue y = false := by
  constructor
  · rintro ⟨c, t, ht, hf⟩
    obtain rfl : w = c :: t := ht
    have hc : Text.isIdentStart c = true := by
      refine Decidable.byContradiction fun hc => ?_
      unfold firstPiece at hf
      split at hf
      · cases hf
      split at hf
      · cases hf
      split at hf
      · cases hf
      split at hf
      · rename_i k hk
        unfold punctuation? at hk
        split at hk <;> cases hk <;> cases hf
      split at hf <;> cases hf
    rw [firstPiece_word hc] at hf
    simp only [Prod.mk.injEq, Piece.mk.injEq, List.cons.injEq, true_and] at hf
    cases b with
    | nil =>
      refine ⟨?_, fun y hy => by cases hy⟩
      have := List.all_takeWhile (p := Text.isIdentContinue) (l := t ++ [])
      rw [hf.1] at this
      simp [Text.isIdentifier, hc, this]
    | cons y b =>
      obtain ⟨hall, hy⟩ := of_takeWhile_eq hf.1
      refine ⟨by simpa [Text.isIdentifier, hc] using hall, fun z hz => ?_⟩
      obtain rfl : y = z := Option.some.inj hz
      exact hy
  · rintro ⟨hw, hb⟩
    obtain ⟨c, t, rfl, hc, ht⟩ := exists_of_isIdentifier hw
    obtain ⟨h₁, h₂⟩ := takeWhile_append_of_head ht hb
    exact ⟨c, t, rfl, by rw [firstPiece_word hc, h₁, h₂]⟩

/-- No word touches the start of a word. -/
theorem kind_ne_word_of_endsBefore {p : Piece} {w b : Text} (h : p.EndsBefore (w ++ b))
    (hw : Text.isIdentifier w = true) : p.kind ≠ .token .word := by
  obtain ⟨k, t⟩ := p
  rintro rfl
  obtain ⟨c, u, rfl, hc, -⟩ := exists_of_isIdentifier hw
  have hn := (word_endsBefore_iff.1 h).2 c rfl
  rw [Text.isIdentContinue_of_isIdentStart hc] at hn
  cases hn

/-! ## Cutting two parts -/

theorem pieces_cons {t : Text} {p : Piece} {ps : List Piece} (h : pieces t = p :: ps) :
    t = p.text ++ ps.flatMap Piece.text ∧ p.EndsBefore (ps.flatMap Piece.text) ∧
      pieces (ps.flatMap Piece.text) = ps := by
  cases t with
  | nil => rw [pieces] at h; cases h
  | cons c t =>
    rw [pieces] at h
    obtain ⟨rfl, rfl⟩ := List.cons.inj h
    rw [flatten_pieces]
    have ha := firstPiece_append c t
    refine ⟨ha.symm, ?_, rfl⟩
    obtain ⟨d, u, hu⟩ := List.exists_cons_of_ne_nil (firstPiece_text_ne_nil c t)
    rw [hu, List.cons_append, List.cons.injEq] at ha
    obtain ⟨rfl, ha⟩ := ha
    exact ⟨d, u, hu, by rw [ha]⟩

theorem text_ne_nil_of_mem_pieces {t : Text} {p : Piece} (h : p ∈ pieces t) : p.text ≠ [] := by
  fun_induction pieces t with
  | case1 => cases h
  | case2 c t ih => exact (List.mem_cons.1 h).elim (fun he => he ▸ firstPiece_text_ne_nil c t) ih

/-- The pieces of a text after a word and a space. -/
theorem pieces_word_space {w : Text} (hw : Text.isIdentifier w = true) (b : Text) :
    pieces (w ++ ' ' :: b) = ⟨.token .word, w⟩ :: ⟨.blank, [' ']⟩ :: pieces b := by
  have h₁ : Piece.EndsBefore ⟨.token .word, w⟩ (' ' :: b) := by
    refine word_endsBefore_iff.2 ⟨hw, fun y hy => ?_⟩
    obtain rfl : ' ' = y := Option.some.inj hy
    decide
  have h₂ : pieces (' ' :: b) = ⟨.blank, [' ']⟩ :: pieces b :=
    (blank_endsBefore (by decide) b).pieces_eq
  rw [h₁.pieces_eq, h₂]

theorem flatMap_text_ne_nil {t : Text} {p : Piece} {ps : List Piece} (h : pieces t = p :: ps) :
    (p :: ps).flatMap Piece.text ≠ [] := by
  rw [List.flatMap_cons]
  exact List.append_ne_nil_of_left_ne_nil (pieces_cons h).2.1.ne_nil _

theorem pieces_append {a b : Text} (h : ∀ p ∈ (pieces a).getLast?, p.EndsBefore b) :
    pieces (a ++ b) = pieces a ++ pieces b := by
  generalize hps : pieces a = ps at h
  induction ps generalizing a with
  | nil =>
    obtain rfl : a = [] := by rw [← flatten_pieces a, hps]; rfl
    rfl
  | cons p ps ih =>
    obtain ⟨ha, hp, hs⟩ := pieces_cons hps
    rw [ha, List.append_assoc]
    cases ps with
    | nil => exact (h p rfl).pieces_eq
    | cons q qs =>
      have hp' : p.EndsBefore ((q :: qs).flatMap Piece.text ++ b) :=
        (Piece.EndsBefore.append_iff (flatMap_text_ne_nil hs) b).2 hp
      rw [hp'.pieces_eq, ih hs (by simpa using h)]
      rfl

/-- Where the pieces are parted, the text is. -/
theorem eq_append_of_pieces {t : Text} {ps qs : List Piece} (h : pieces t = ps ++ qs) :
    t = ps.flatMap Piece.text ++ qs.flatMap Piece.text := by
  rw [← List.flatMap_append, ← h, flatten_pieces]

theorem eq_append_of_last {a : Text} {ps : List Piece} {p : Piece} (h : pieces a = ps ++ [p]) :
    a = ps.flatMap Piece.text ++ p.text := by
  rw [eq_append_of_pieces h, List.flatMap_singleton]

/-- Where a text is cut, both parts are cut on their own in the same way. -/
theorem pieces_of_append {t : Text} {ps qs : List Piece} (h : pieces t = ps ++ qs) :
    pieces (ps.flatMap Piece.text) = ps ∧ pieces (qs.flatMap Piece.text) = qs ∧
      ∀ p ∈ ps.getLast?, p.EndsBefore (qs.flatMap Piece.text) := by
  induction ps generalizing t with
  | nil =>
    have ht := flatten_pieces t
    rw [h, List.nil_append] at ht
    rw [List.nil_append] at h
    refine ⟨by rw [List.flatMap_nil, pieces], by rw [ht, h], ?_⟩
    intro p hp; cases hp
  | cons p ps ih =>
    rw [List.cons_append] at h
    obtain ⟨-, hp, hs⟩ := pieces_cons h
    obtain ⟨h₁, h₂, h₃⟩ := ih hs
    have hps : p.EndsBefore (ps.flatMap Piece.text) := by
      rw [List.flatMap_append] at hp
      exact hp.of_append
    refine ⟨by rw [List.flatMap_cons, hps.pieces_eq, h₁], h₂, ?_⟩
    cases ps with
    | nil =>
      intro r hr
      obtain rfl := Option.some.inj hr
      simpa using hp
    | cons q ps => simpa using h₃

/-- What comes behind a text makes its last piece longer or leaves it, and changes none before. -/
theorem pieces_append_of_last {a : Text} {ps : List Piece} {p : Piece} (h : pieces a = ps ++ [p])
    (z : Text) : pieces (a ++ z) = ps ++ pieces (p.text ++ z) ∧
      ∃ q qs v, pieces (p.text ++ z) = q :: qs ∧ q.text = p.text ++ v ∧
        z = v ++ qs.flatMap Piece.text := by
  obtain ⟨h₁, h₂, h₃⟩ := pieces_of_append h
  rw [List.flatMap_singleton] at h₂ h₃
  have ha := eq_append_of_last h
  have hne : p.text ≠ [] := (pieces_cons h₂).2.1.ne_nil
  constructor
  · rw [ha, List.append_assoc]
    refine (pieces_append fun r hr => ?_).trans (by rw [h₁])
    exact (Piece.EndsBefore.append_iff hne z).2 (h₃ r (h₁ ▸ hr))
  · obtain ⟨q, qs, hq⟩ : ∃ q qs, pieces (p.text ++ z) = q :: qs := by
      obtain ⟨c, u, hc⟩ := List.exists_cons_of_ne_nil hne
      rw [hc, List.cons_append, pieces]
      exact ⟨_, _, rfl⟩
    obtain ⟨hz, hb, -⟩ := pieces_cons hq
    rcases List.append_eq_append_iff.1 hz with ⟨v, hv, hr⟩ | ⟨v, hv, hr⟩
    · exact ⟨q, qs, v, hq, hv, hr⟩
    cases v with
    | nil => exact ⟨q, qs, [], hq, by rw [hv]; simp, by rw [hr]; rfl⟩
    | cons x w =>
      -- the piece would have ended inside the text without what comes behind
      rw [hr] at hb
      have := hb.of_append.pieces_eq
      rw [← hv, h₂, pieces] at this
      cases this

/-! ## Tokens of two parts -/

namespace Token

/-- The token `n` bytes further on. -/
def shift (n : Nat) (k : Token) : Token := { k with start := n + k.start }

@[simp] theorem kind_shift (n : Nat) (k : Token) : (k.shift n).kind = k.kind := rfl

@[simp] theorem text_shift (n : Nat) (k : Token) : (k.shift n).text = k.text := rfl

@[simp] theorem start_shift (n : Nat) (k : Token) : (k.shift n).start = n + k.start := rfl

@[simp] theorem stop_shift (n : Nat) (k : Token) : (k.shift n).stop = n + k.stop :=
  Nat.add_assoc ..

end Token

/-- Tokens moved twice are moved once, all the way. -/
theorem map_shift_map_shift (m n : Nat) (ks : List Token) :
    (ks.map (Token.shift m)).map (Token.shift n) = ks.map (Token.shift (n + m)) := by
  rw [List.map_map]
  refine List.map_congr_left fun k _ => ?_
  simp only [Function.comp_apply, Token.shift, Nat.add_assoc]

theorem place_append (n : Nat) (ps qs : List Piece) :
    place n (ps ++ qs) = place n ps ++ place (n + Text.bytes (ps.flatMap Piece.text)) qs := by
  induction ps generalizing n with
  | nil => simp [place]
  | cons p ps ih =>
    simp only [List.cons_append, place, List.flatMap_cons, Text.bytes_append, ih]
    split <;> simp [Nat.add_assoc]

theorem place_add (n m : Nat) (ps : List Piece) :
    place (n + m) ps = (place m ps).map (Token.shift n) := by
  induction ps generalizing m with
  | nil => rfl
  | cons p ps ih =>
    simp only [place, Nat.add_assoc, ih]
    split <;> rfl

theorem place_eq_map (n : Nat) (t : Text) :
    place n (pieces t) = (tokens t).map (Token.shift n) := place_add n 0 (pieces t)

theorem tokens_append {a b : Text} (h : pieces (a ++ b) = pieces a ++ pieces b) :
    tokens (a ++ b) = tokens a ++ (tokens b).map (Token.shift (Text.bytes a)) := by
  rw [tokens, h, place_append, flatten_pieces, Nat.zero_add, ← place_eq_map, tokens]

theorem start_le_of_mem_place {n : Nat} {ps : List Piece} {k : Token} (h : k ∈ place n ps) :
    n ≤ k.start ∧ k.stop ≤ n + Text.bytes (ps.flatMap Piece.text) := by
  induction ps generalizing n with
  | nil => cases h
  | cons p ps ih =>
    simp only [place] at h
    rw [List.flatMap_cons, Text.bytes_append]
    split at h
    · rcases List.mem_cons.1 h with rfl | h
      · simp [Token.stop]
      · have := ih h; omega
    · have := ih h; omega

theorem exists_split_of_place {n : Nat} {ps : List Piece} {pre post : List Token} {k : Token}
    (h : place n ps = pre ++ k :: post) :
    ∃ qs rs, ps = qs ++ ⟨.token k.kind, k.text⟩ :: rs ∧ place n qs = pre ∧
      k.start = n + Text.bytes (qs.flatMap Piece.text) ∧ place k.stop rs = post := by
  induction ps generalizing n pre with
  | nil => simp [place] at h
  | cons p ps ih =>
    simp only [place] at h
    split at h
    · rename_i kind hk
      cases pre with
      | nil =>
        obtain ⟨rfl, rfl⟩ := List.cons.inj h
        exact ⟨[], ps, by rw [← hk]; rfl, rfl, rfl, rfl⟩
      | cons l pre =>
        rw [List.cons_append, List.cons.injEq] at h
        obtain ⟨rfl, h⟩ := h
        obtain ⟨qs, rs, rfl, rfl, hn, hr⟩ := ih h
        refine ⟨p :: qs, rs, rfl, by simp [place, hk], ?_, hr⟩
        rw [hn, List.flatMap_cons, Text.bytes_append, Nat.add_assoc]
    · rename_i hk
      obtain ⟨qs, rs, rfl, rfl, hn, hr⟩ := ih h
      refine ⟨p :: qs, rs, rfl, ?_, ?_, hr⟩
      · cases hp : p.kind with
        | token kind => exact absurd hp (hk kind)
        | blank => simp [place, hp]
        | comment => simp [place, hp]
      · rw [hn, List.flatMap_cons, Text.bytes_append, Nat.add_assoc]

/-- A text around one of its tokens. -/
theorem exists_split_of_tokens {t : Text} {pre post : List Token} {k : Token}
    (h : tokens t = pre ++ k :: post) :
    ∃ a b, t = a ++ (k.text ++ b) ∧ tokens a = pre ∧ k.start = Text.bytes a ∧
      pieces t = pieces a ++ ⟨.token k.kind, k.text⟩ :: pieces b ∧
      place k.stop (pieces b) = post := by
  obtain ⟨qs, rs, hps, hpre, hn, hpost⟩ := exists_split_of_place h
  obtain ⟨h₁, h₂, -⟩ := pieces_of_append hps
  obtain ⟨-, -, h₃⟩ := pieces_cons h₂
  refine ⟨qs.flatMap Piece.text, rs.flatMap Piece.text, eq_append_of_pieces hps, ?_, ?_, ?_, ?_⟩
  · rw [tokens, h₁, hpre]
  · rw [hn, Nat.zero_add]
  · rw [hps, h₁, h₃]
  · rw [h₃, hpost]

/-! ## Single tokens of a text -/

theorem endsBefore_of_mem_tokens {t : Text} {k : Token} (h : k ∈ tokens t) :
    ∃ b, Piece.EndsBefore ⟨.token k.kind, k.text⟩ b := by
  obtain ⟨pre, post, hs⟩ := List.append_of_mem h
  obtain ⟨a, b, -, -, -, hp, -⟩ := exists_split_of_tokens hs
  exact ⟨_, (pieces_cons (pieces_of_append hp).2.1).2.1⟩

theorem stop_le_of_mem_tokens {t : Text} {k : Token} (h : k ∈ tokens t) :
    k.stop ≤ Text.bytes t := by
  have := (start_le_of_mem_place h).2
  rwa [flatten_pieces, Nat.zero_add] at this

theorem start_lt_stop_of_mem_tokens {t : Text} {k : Token} (h : k ∈ tokens t) :
    k.start < k.stop := by
  obtain ⟨b, hb⟩ := endsBefore_of_mem_tokens h
  exact Nat.lt_add_of_pos_right (Text.bytes_pos hb.ne_nil)

theorem start_lt_of_tokens {t : Text} {xs ys : List Token} {n : Nat} (h : tokens t = xs ++ ys)
    (hx : ∀ k ∈ xs, k.stop ≤ n) : ∀ k ∈ xs, k.start < n := by
  intro k hk
  have hmem : k ∈ tokens t := h ▸ List.mem_append_left ys hk
  exact Nat.lt_of_lt_of_le (start_lt_stop_of_mem_tokens hmem) (hx k hk)

theorem lt_stop_of_tokens {t : Text} {xs ys : List Token} {n : Nat} (h : tokens t = xs ++ ys)
    (hy : ∀ k ∈ ys, n ≤ k.start) : ∀ k ∈ ys, n < k.stop := by
  intro k hk
  have hmem : k ∈ tokens t := h ▸ List.mem_append_right xs hk
  exact Nat.lt_of_le_of_lt (hy k hk) (start_lt_stop_of_mem_tokens hmem)

theorem filter_start_lt {xs ys : List Token} {n : Nat} (hx : ∀ k ∈ xs, k.start < n)
    (hy : ∀ k ∈ ys, n ≤ k.start) : (xs ++ ys).filter (·.start < n) = xs := by
  have hnone : ys.filter (·.start < n) = [] := by
    refine List.filter_eq_nil_iff.2 fun k hk => ?_
    have := hy k hk
    simp only [decide_eq_true_eq]
    omega
  rw [List.filter_append, hnone, List.append_nil]
  exact List.filter_eq_self.2 fun k hk => decide_eq_true (hx k hk)

/-- A token that reads like a word is one. -/
theorem kind_of_mem_tokens {t : Text} {k : Token} (h : k ∈ tokens t)
    (hi : Text.isIdentifier k.text = true) : k.kind = .word := by
  obtain ⟨b, c, u, hu, hf⟩ := endsBefore_of_mem_tokens h
  obtain ⟨kind, start, text⟩ := k
  obtain rfl : text = c :: u := hu
  simp only [Text.isIdentifier, Bool.and_eq_true] at hi
  rw [firstPiece_word hi.1] at hf
  simp only [Prod.mk.injEq, Piece.mk.injEq, PieceKind.token.injEq] at hf
  exact hf.1.1.symm

/-- The tokens that start before a place are those of the text before it. -/
theorem filter_tokens_of_pieces {a b t : Text} (h : pieces t = pieces a ++ pieces b) :
    (tokens t).filter (·.start < Text.bytes a) = tokens a := by
  have ht : tokens t = tokens a ++ place (Text.bytes a) (pieces b) := by
    rw [tokens, h, place_append, flatten_pieces, Nat.zero_add]
    rfl
  rw [ht]
  refine filter_start_lt ?_ fun k hk => (start_le_of_mem_place hk).1
  exact start_lt_of_tokens (List.append_nil _).symm fun k hk => stop_le_of_mem_tokens hk

/-- The last piece of a text is a word if a word ends with the text. -/
theorem exists_last_word {a : Text} {pre : List Token} {k : Token} (h : tokens a = pre ++ [k])
    (hk : k.kind = .word) (hs : k.stop = Text.bytes a) :
    ∃ b, a = b ++ k.text ∧ pieces a = pieces b ++ [⟨.token .word, k.text⟩] ∧ tokens b = pre ∧
      k.start = Text.bytes b := by
  obtain ⟨b, c, ha, hb, hn, hp, -⟩ := exists_split_of_tokens h
  have hc : c = [] := by
    have hbytes := congrArg Text.bytes ha
    simp only [Text.bytes_append] at hbytes
    rw [Token.stop, hn] at hs
    cases c with
    | nil => rfl
    | cons x c =>
      have := x.utf8Size_pos
      simp only [Text.bytes_cons] at hbytes
      omega
  subst hc
  rw [hk, pieces] at hp
  exact ⟨b, by rw [ha, List.append_nil], hp, hb, hn⟩

theorem exists_last_token {a : Text} {p : Piece} {kind : TokenKind}
    (h : p ∈ (pieces a).getLast?) (hp : p.kind = .token kind) :
    ∃ pre k, tokens a = pre ++ [k] ∧ k.kind = kind ∧ k.stop = Text.bytes a := by
  obtain ⟨ps, hps⟩ := List.getLast?_eq_some_iff.1 h
  have ha := eq_append_of_last hps
  refine ⟨place 0 ps, ⟨kind, 0 + Text.bytes (ps.flatMap Piece.text), p.text⟩, ?_, rfl, ?_⟩
  · rw [tokens, hps, place_append]
    simp [place, hp]
  · rw [Token.stop, ha, Text.bytes_append, Nat.zero_add]

end Source

end QuickFix
