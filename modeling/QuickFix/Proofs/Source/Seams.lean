import QuickFix.Proofs.Source.Inserting
import QuickFix.Proofs.Source.Partition
import QuickFix.Text.Edit

/-!
# Texts put in behind a blank

A blank that is a piece of its own keeps apart what stands on its two sides, whatever that is
(`pieces_append_of_blank`). So a text that ends with such a blank, put in behind another one, puts in
its tokens. A blank at the end of a literal or a comment does not do the same: the literal or comment
goes on with all that does not start with a line feed (`kind_eq_blank_of_endsBefore`), and no token
starts where the new text does (`start_ne_of_goesOn`).

`insert_putsIn_iff`: behind a blank any text puts in its tokens exactly if the blank is a piece.
-/

namespace QuickFix

namespace Source

open Text

/-! ## Pieces that end with a blank -/

theorem exists_mark_of_through {m t : Text} (h : (through m t).2 ≠ []) :
    ∃ u, (through m t).1 = u ++ m := by
  unfold through at h ⊢
  split
  · exact ⟨_, rfl⟩
  · rename_i hnone
    rw [hnone] at h
    exact absurd rfl h

theorem exists_quote_of_quoted {q y : Char} {t r : Text} (h : (quoted q t).2 = y :: r)
    (hy : y ≠ '\n') : ∃ u, (quoted q t).1 = u ++ [q] := by
  fun_induction quoted q t with
  | case1 | case2 => cases h
  | case3 c t ih =>
    obtain ⟨u, hu⟩ := ih h
    exact ⟨'\\' :: c :: u, by rw [hu]; rfl⟩
  | case4 => exact absurd (List.cons.inj h).1.symm hy
  | case5 => exact ⟨[], rfl⟩
  | case6 c t _ _ _ _ ih =>
    obtain ⟨u, hu⟩ := ih h
    exact ⟨c :: u, by rw [hu]; rfl⟩

/-- A literal before anything but a line feed ends with its quote. -/
theorem exists_quote_of_literal {q y : Char} {t r : Text} (h : (literal q t).2 = y :: r)
    (hy : y ≠ '\n') : ∃ u, (literal q t).1 = u ++ [q] := by
  by_cases hblock : ∃ v, t = q :: q :: v
  · obtain ⟨v, rfl⟩ := hblock
    rw [literal_block] at h ⊢
    obtain ⟨u, hu⟩ := exists_mark_of_through (by rw [h]; exact List.cons_ne_nil y r)
    exact ⟨q :: q :: (u ++ [q, q]), by simp [hu]⟩
  · rw [literal_eq_quoted fun v hv => hblock ⟨v, hv⟩] at h ⊢
    exact exists_quote_of_quoted h hy

/-- The text ends with a blank. -/
def EndsBlank (t : Text) : Prop := ∃ c ∈ t.getLast?, isAsciiBlank c = true

theorem not_endsBlank_append {t : Text} {c : Char} (h : isAsciiBlank c = false) :
    ¬EndsBlank (t ++ [c]) := by
  rintro ⟨d, hd, hblank⟩
  rw [List.getLast?_concat] at hd
  obtain rfl := Option.some.inj hd
  rw [h] at hblank
  cases hblank

/-- Only a blank, a literal and a comment end with a blank, and the comment not where something else
than a line feed is behind it. -/
theorem Piece.Shape.kind_of_endsBlank {p : Piece} {rest : Text} (h : p.Shape rest)
    (hp : EndsBlank p.text) : p.kind = .blank ∨ p.kind = .token .literal ∨
      p.kind = .comment ∧ ∀ y ∈ rest.head?, y = '\n' := by
  cases h with
  | blank => exact .inl rfl
  | lineComment _ hr => exact .inr (.inr ⟨rfl, hr⟩)
  | @blockComment u =>
    have hslash : ¬EndsBlank ('/' :: '*' :: u ++ ['*'] ++ ['/']) := not_endsBlank_append (by decide)
    exact absurd (by simpa using hp) hslash
  | openComment _ hr =>
    refine .inr (.inr ⟨rfl, fun y hy => ?_⟩)
    rw [hr] at hy
    cases hy
  | @sign c kind hc =>
    exact absurd hp (not_endsBlank_append (t := []) (isAsciiBlank_of_punctuation? hc))
  | literal => exact .inr (.inl rfl)
  | @word w hw =>
    obtain ⟨d, v, rfl, hd, hv⟩ := exists_of_isIdentifier hw
    obtain ⟨c, hc, hblank⟩ := hp
    have hcontinue : isIdentContinue c = true := by
      rcases List.mem_cons.1 (List.mem_of_getLast? hc) with rfl | hm
      · exact isIdentContinue_of_isIdentStart hd
      · exact hv c hm
    rw [isAsciiBlank_of_isIdentContinue hcontinue] at hblank
    cases hblank
  | other hb => exact absurd hp (not_endsBlank_append (t := []) hb)

/-- A piece that ends with a blank, before anything but a line feed, is that blank. -/
theorem kind_eq_blank_of_endsBefore {p : Piece} {y : Char} {r : Text} (h : p.EndsBefore (y :: r))
    (hy : y ≠ '\n') (hp : EndsBlank p.text) : p.kind = .blank := by
  rcases h.shape.kind_of_endsBlank hp with hk | hk | ⟨-, hr⟩
  · exact hk
  · obtain ⟨q, u, hu, hq⟩ := quote_of_literal h hk
    obtain ⟨c, v, hv, hf⟩ := h
    obtain ⟨rfl, rfl⟩ := List.cons.inj (hu.symm.trans hv)
    rw [firstPiece_quote hq] at hf
    obtain ⟨hpiece, hrest⟩ := Prod.mk.inj hf
    obtain ⟨w, hw⟩ := exists_quote_of_literal hrest hy
    rw [← hpiece, hw] at hp
    have hquote : isAsciiBlank q = false := by rcases hq with rfl | rfl <;> decide
    exact absurd hp (not_endsBlank_append (t := q :: w) hquote)
  · exact absurd (hr y rfl) hy

/-! ## Blanks between two parts -/

/-- What comes behind a blank is cut on its own. -/
theorem pieces_append_of_blank {a : Text} (h : ∀ p ∈ (pieces a).getLast?, p.kind = .blank)
    (z : Text) : pieces (a ++ z) = pieces a ++ pieces z := by
  refine pieces_append fun p hp => ?_
  obtain ⟨ps, hps⟩ := List.getLast?_eq_some_iff.1 hp
  obtain ⟨c, rfl, hc⟩ := (shape_of_pieces hps).of_blank (h p hp)
  exact blank_endsBefore hc z

/-- A text that ends with a blank, outside of literals and comments. -/
structure EndsOutside (s : Text) : Prop where
  endsBlank : EndsBlank s
  outside : ∀ p ∈ (pieces s).getLast?, p.kind ≠ .comment ∧ p.kind ≠ .token .literal

theorem EndsOutside.kind_eq_blank {s : Text} (h : EndsOutside s) :
    ∀ p ∈ (pieces s).getLast?, p.kind = .blank := by
  intro p hp
  obtain ⟨ps, hps⟩ := List.getLast?_eq_some_iff.1 hp
  obtain ⟨hcomment, hliteral⟩ := h.outside p hp
  have hblank : EndsBlank p.text := by
    obtain ⟨c, hc, hb⟩ := h.endsBlank
    exact ⟨c, getLast?_of_last hps ▸ hc, hb⟩
  rcases (shape_of_pieces hps).kind_of_endsBlank hblank with hk | hk | ⟨hk, -⟩
  · exact hk
  · exact absurd hk hliteral
  · exact absurd hk hcomment

theorem putsIn_of_blank {a b s : Text} (hcut : pieces (a ++ b) = pieces a ++ pieces b)
    (ha : ∀ p ∈ (pieces a).getLast?, p.kind = .blank) (hs : EndsOutside s) :
    PutsIn ((tokens s).map (Token.shift (bytes a))) (bytes a) (bytes s) (a ++ b) (a ++ s ++ b) :=
  putsIn_of_pieces hcut (tokens_append (pieces_append_of_blank ha (s ++ b)))
    (pieces_append_of_blank hs.kind_eq_blank b)

/-! ## Behind a literal or a comment -/

/-- No token starts at the end of a literal or a comment that goes on. -/
theorem start_ne_of_goesOn {a z : Text} {ps : List Piece} {p : Piece} {y : Char}
    (h : pieces a = ps ++ [p]) (hp : EndsBlank p.text) (hkind : p.kind ≠ .blank) (hy : y ≠ '\n') :
    ∀ k ∈ tokens (a ++ y :: z), k.start ≠ bytes a := by
  obtain ⟨happend, q, qs, v, hq, hv, hz⟩ := pieces_append_of_last h (y :: z)
  obtain ⟨-, hends, -⟩ := pieces_cons hq
  obtain ⟨ha, hpos⟩ := bytes_of_last h
  have hne : v ≠ [] := by
    rintro rfl
    rw [List.append_nil] at hv
    rw [← List.nil_append (qs.flatMap Piece.text), ← hz] at hends
    obtain ⟨c, rfl, hc⟩ := hends.shape.of_blank (kind_eq_blank_of_endsBefore hends hy (hv ▸ hp))
    -- one blank is the same piece before anything
    have hlast := (pieces_of_append h).2.1
    rw [List.flatMap_singleton, ← hv, pieces, firstPiece_blank hc] at hlast
    exact hkind (congrArg Piece.kind (List.cons.inj hlast).1.symm)
  have hlonger := Text.bytes_pos hne
  intro k hk
  rw [tokens, happend, hq, place_append, Nat.zero_add] at hk
  rcases List.mem_append.1 hk with hk | hk
  · have hstop := (start_le_of_mem_place hk).2
    have hle : k.start ≤ k.stop := Nat.le_add_right ..
    omega
  · rcases start_of_mem_place_cons hk with hk | hk
    · omega
    · rw [hv, bytes_append] at hk
      omega

theorem not_putsIn_of_goesOn {a b : Text} {ps : List Piece} {p : Piece} {o m : Nat} {t : Text}
    (h : pieces a = ps ++ [p]) (hp : EndsBlank p.text) (hkind : p.kind ≠ .blank)
    (ho : bytes a = o) : ¬PutsIn ((tokens "x ").map (Token.shift o)) o m t (a ++ "x " ++ b) := by
  rintro ⟨xs, ys, -, -, -, hr⟩
  have hword : tokens "x " = [⟨.word, 0, "x"⟩] := by decide +kernel
  have hmem : ⟨.word, o, "x"⟩ ∈ tokens (a ++ "x " ++ b) := by
    rw [hr, hword]
    exact List.mem_append_left _ (List.mem_append_right _ List.mem_cons_self)
  rw [List.append_assoc] at hmem
  exact start_ne_of_goesOn h hp hkind (by decide) _ hmem ho.symm

end Source

open Source

/-- **A text put in behind a blank puts in its tokens**, whatever stands behind the place, if the text
ends with a blank outside of literals and comments, exactly where the blank before the place is a piece
and not the end of a literal or comment. -/
theorem insert_putsIn_iff {t : Text} {ps qs : List Piece} {o : Nat} (hps : pieces t = ps ++ qs)
    (ho : Text.bytes (ps.flatMap Piece.text) = o)
    (hblank : ps = [] ∨ EndsBlank (ps.flatMap Piece.text)) :
    (∀ s, EndsOutside s → ∃ r, (Edit.insert o s).apply t = .ok r ∧
        PutsIn ((tokens s).map (Token.shift o)) o (Text.bytes s) t r) ↔
      ∀ p ∈ ps.getLast?, p.kind = .blank := by
  obtain ⟨ha, hb, -⟩ := pieces_of_append hps
  have ht := eq_append_of_pieces hps
  generalize ps.flatMap Piece.text = a at *
  generalize qs.flatMap Piece.text = b at *
  subst ho ht
  constructor
  · intro hall p hp
    obtain ⟨ps', hlast⟩ := List.getLast?_eq_some_iff.1 hp
    have hends : EndsBlank p.text := by
      obtain ⟨c, hc, hcblank⟩ := hblank.resolve_left (by rw [hlast]; simp)
      exact ⟨c, getLast?_of_last (ha.trans hlast) ▸ hc, hcblank⟩
    refine Decidable.byContradiction fun hkind => ?_
    obtain ⟨r, hr, hputs⟩ := hall "x " ⟨⟨' ', by decide, by decide⟩, by decide +kernel⟩
    rw [Edit.insert_apply] at hr
    obtain rfl := Except.ok.inj hr
    exact not_putsIn_of_goesOn (ha.trans hlast) hends hkind rfl hputs
  · intro hkind s hs
    have hcut : pieces (a ++ b) = pieces a ++ pieces b := by rw [hps, ha, hb]
    exact ⟨_, Edit.insert_apply a s b, putsIn_of_blank hcut (by rwa [ha]) hs⟩

/-- An empty literal put in before a block: without the blank between them their quotes would open
another block. -/
theorem insert_putsIn_iff_block :
    let t : Text := "a \"\"\"b\"\"\""
    let s : Text := "\"\" "
    EndsOutside s ∧ ∃ r, (Edit.insert 2 s).apply t = .ok r ∧
      PutsIn ((tokens s).map (Token.shift 2)) 2 3 t r := by
  intro t s
  have hs : EndsOutside s := ⟨⟨' ', by decide, by decide⟩, by decide +kernel⟩
  have hps : pieces t = [⟨.token .word, "a"⟩, ⟨.blank, " "⟩] ++
      [⟨.token .literal, "\"\"\"b\"\"\""⟩] := by decide +kernel
  have hblank : EndsBlank "a " := ⟨' ', by decide, by decide⟩
  exact ⟨hs, (insert_putsIn_iff hps (by decide) (.inr hblank)).2 (by decide) s hs⟩

/-- A blank at the end of a line comment, before the line feed, lets the comment take in the new
word. -/
theorem insert_swallowed :
    let t : Text := "// a \nb"
    let s : Text := "x "
    (∃ ps qs, pieces t = ps ++ qs ∧ Text.bytes (ps.flatMap Piece.text) = 5 ∧
        EndsBlank (ps.flatMap Piece.text)) ∧ EndsOutside s ∧
      ∃ r, (Edit.insert 5 s).apply t = .ok r ∧ tokens r = [⟨.word, 8, "b"⟩] ∧
        ¬PutsIn ((tokens s).map (Token.shift 5)) 5 (Text.bytes s) t r := by
  intro t s
  have hs : EndsOutside s := ⟨⟨' ', by decide, by decide⟩, by decide +kernel⟩
  have hblank : EndsBlank "// a " := ⟨' ', by decide, by decide⟩
  have hps : pieces t = [⟨.comment, "// a "⟩] ++ [⟨.blank, "\n"⟩, ⟨.token .word, "b"⟩] := by
    decide +kernel
  have hlast : pieces "// a " = [] ++ [⟨.comment, "// a "⟩] := (pieces_of_append hps).1
  refine ⟨⟨_, _, hps, by decide, hblank⟩, hs, "// a x \nb", by rfl, by decide +kernel, ?_⟩
  exact not_putsIn_of_goesOn (b := "\nb") hlast hblank (by decide) (by decide)

end QuickFix
