import QuickFix.Proofs.Source.ImportLines
import QuickFix.Proofs.Source.UnitLevels

/-!
# Taking a level away

The package's level has no word, so that the edit that gives it takes a word out of the text, and the
blanks behind it. What stood before the word then touches what stood behind the blanks.

* `pieces_close_up`: neither part is cut differently for that, unless the first ends with a slash:
  what comes is a word, an `@` or a comment;
* `EndsWhole`: in a compilation unit no slash stands before a modifier;
* `exists_removed`: so the tokens are those that there were, but for the word.
-/

namespace QuickFix

open Source Source.Scanner

namespace Source

/-! ## What may come to touch a text -/

/-- A comment, a word or an `@` starts with one of few characters. -/
theorem firstPiece_start {c : Char} {t : Text}
    (h : (firstPiece c t).1.kind ∈ [.comment, .token .word, .token .at]) :
    c = '/' ∨ c = '@' ∨ Text.isIdentStart c = true := by
  rcases firstPiece_cases c with hc | hc | ⟨k, hc⟩ | hc | hc | hc
  · rw [firstPiece_blank hc] at h
    simp at h
  · exact .inl hc
  · rw [firstPiece_punctuation hc] at h
    unfold punctuation? at hc
    split at hc <;> cases hc <;> simp at h ⊢
  · rw [firstPiece_quote hc] at h
    simp at h
  · exact .inr (.inr hc)
  · rw [hc] at h
    simp at h

/-- The tokens do not end with a sign of which a comment could make something else. -/
def EndsWhole (ts : List Token) : Prop := ∀ k ∈ ts.getLast?, k.kind = .other → k.text = ['*']

/-- **Two parts of a text, moved together**, are cut as they were, if the first was cut before a word
and the second starts with a word, an `@` or a comment. -/
theorem pieces_close_up {a w z b : Text}
    (h : pieces (a ++ (w ++ z)) = pieces a ++ ⟨.token .word, w⟩ :: pieces z)
    (ha : EndsWhole (tokens a))
    (hb : ∀ p ∈ (pieces b).head?, p.kind ∈ [.comment, .token .word, .token .at]) :
    pieces (a ++ b) = pieces a ++ pieces b := by
  obtain ⟨-, hw, hlast⟩ := pieces_of_append h
  have hid : Text.isIdentifier w = true := (word_endsBefore_iff.1 (pieces_cons hw).2.1).1
  refine pieces_append fun p hp => ?_
  have hends : p.EndsBefore (w ++ z) := by
    have := hlast p hp
    rwa [List.flatMap_cons, flatten_pieces] at this
  have hword : p.kind ≠ .token .word := kind_ne_word_of_endsBefore hends hid
  obtain ⟨x, w, rfl, hx, -⟩ := exists_of_isIdentifier hid
  have hne : ∀ y : Char, Text.isIdentStart y = false → x ≠ y := by
    rintro y hy rfl
    rw [hx] at hy
    cases hy
  have hfeed : x ≠ '\n' := hne _ (by decide)
  have hslash : p.text ≠ ['/'] := by
    intro hs
    obtain ⟨c, u, hu, hf⟩ := hends
    obtain ⟨rfl, rfl⟩ := List.cons.inj (hu.symm.trans hs)
    rw [List.nil_append, firstPiece_slash] at hf
    · obtain ⟨ps, hps⟩ := List.getLast?_eq_some_iff.1 hp
      have htok : tokens a = place 0 ps ++ [⟨.other, 0 + Text.bytes (ps.flatMap Piece.text), ['/']⟩] := by
        rw [tokens, hps, place_append, ← (Prod.mk.inj hf).1]
        rfl
      have hstar := ha _ (by rw [htok, List.getLast?_concat]; rfl) rfl
      simp at hstar
    · simpa using hne '/' (by decide)
    · simpa using hne '*' (by decide)
  cases b with
  | nil =>
    rw [← List.append_nil (x :: w ++ z)] at hends
    exact hends.swap fun y hy => by cases hy
  | cons y b =>
    rw [pieces] at hb
    rcases firstPiece_start (hb _ rfl) with rfl | rfl | hy
    · exact hends.swap_comment b hfeed hslash
    · exact hends.swap fun y hy => .inr ⟨hfeed, by cases hy; decide, fun hk => absurd hk hword⟩
    · exact hends.swap_word hfeed hword hy

/-- The blanks before a token that starts with a word or an `@` separate tokens all of them. -/
theorem isAsciiBlank_of_starts {z : Text} (h : Starts (tokens z)) :
    ∀ c ∈ z.takeWhile Text.isBlank, Text.isAsciiBlank c = true := by
  induction z with
  | nil => exact fun c hc => by cases hc
  | cons c z ih =>
    by_cases hc : Text.isBlank c = true
    · have hascii : Text.isAsciiBlank c = true := by
        rcases firstPiece_cases c with ha | rfl | ⟨k, hk⟩ | hq | hi | ho
        · exact ha
        · exact absurd hc (by decide)
        · unfold punctuation? at hk
          split at hk <;> first | exact absurd hc (by decide) | cases hk
        · rcases hq with rfl | rfl <;> exact absurd hc (by decide)
        · rw [Text.isBlank_eq_false_of_isIdentContinue (Text.isIdentContinue_of_isIdentStart hi)] at hc
          cases hc
        · have htok : tokens (c :: z) = ⟨.other, 0, [c]⟩ :: place (0 + Text.bytes [c]) (pieces z) := by
            rw [tokens, pieces, ho]
            rfl
          rw [htok] at h
          rcases h _ rfl with hk | hk <;> cases hk
      have htok : tokens (c :: z) = (tokens z).map (Token.shift (0 + Text.bytes [c])) := by
        rw [tokens, pieces, firstPiece_blank hascii, ← place_eq_map]
        rfl
      have hz : Starts (tokens z) := by
        rw [htok] at h
        intro k hk
        exact h (k.shift _) (by rw [List.head?_map, hk]; rfl)
      rw [List.takeWhile_cons_of_pos hc]
      exact List.forall_mem_cons.2 ⟨hascii, ih hz⟩
    · rw [List.takeWhile_cons_of_neg hc]
      exact fun c hc => by cases hc

theorem isAsciiBlank_of_firstPiece {c : Char} {t : Text}
    (h : (firstPiece c t).1.kind = .blank) : Text.isAsciiBlank c = true := by
  by_contra hc
  rw [firstPiece, if_neg hc] at h
  repeat' split at h
  all_goals cases h

theorem place_map_blank (n : Nat) (u : Text) : place n (u.map fun c => ⟨.blank, [c]⟩) = [] := by
  induction u generalizing n with
  | nil => rfl
  | cons c u ih => exact ih _

theorem flatMap_map_blank (u : Text) :
    (u.map fun c => (⟨.blank, [c]⟩ : Piece)).flatMap Piece.text = u := by
  rw [List.flatMap_map]
  exact List.flatMap_singleton' u

/-- Behind a word, blanks are all taken up to the next word, `@` or comment. -/
theorem head_pieces_dropWhile {z : Text} (h : Starts (tokens z)) :
    pieces z = (z.takeWhile Text.isBlank).map (fun c => ⟨.blank, [c]⟩) ++
        pieces (z.dropWhile Text.isBlank) ∧
      ∀ p ∈ (pieces (z.dropWhile Text.isBlank)).head?,
        p.kind ∈ [.comment, .token .word, .token .at] := by
  have hpieces := pieces_blanks_append (isAsciiBlank_of_starts h) (z.dropWhile Text.isBlank)
  rw [List.takeWhile_append_dropWhile] at hpieces
  have htok : tokens z = place (0 + Text.bytes (z.takeWhile Text.isBlank))
      (pieces (z.dropWhile Text.isBlank)) := by
    rw [tokens, hpieces, place_append, place_map_blank, flatMap_map_blank]
    rfl
  refine ⟨hpieces, fun p hp => ?_⟩
  have hhead := List.head?_dropWhile_not Text.isBlank z
  cases hb : z.dropWhile Text.isBlank with
  | nil =>
    rw [hb, pieces] at hp
    cases hp
  | cons c b =>
    rw [hb, pieces] at hp htok
    rw [hb] at hhead
    obtain rfl := Option.some.inj hp
    cases hk : (firstPiece c b).1.kind with
    | blank =>
      have hblank := Text.isBlank_of_isAsciiBlank (isAsciiBlank_of_firstPiece hk)
      rw [show Text.isBlank c = false from hhead] at hblank
      cases hblank
    | comment => simp
    | token kind =>
      simp only [place, hk] at htok
      rw [htok] at h
      rcases h _ rfl with hw | ha
      · obtain rfl : kind = .word := hw
        simp
      · obtain rfl : kind = .at := ha
        simp

/-! ## Where a unit may be cut -/

namespace EndsWhole

theorem nil : EndsWhole [] := fun k hk => by cases hk

theorem append {ts us : List Token} (h : EndsWhole ts) (h' : EndsWhole us) :
    EndsWhole (ts ++ us) := by
  intro k hk
  rw [List.getLast?_append] at hk
  rcases Option.or_eq_some_iff.1 hk with hk | ⟨-, hk⟩
  · exact h' k hk
  · exact h k hk

theorem flatMap {α : Type} {f : α → List Token} {as : List α} (h : ∀ a ∈ as, EndsWhole (f a)) :
    EndsWhole (as.flatMap f) := by
  induction as with
  | nil => exact nil
  | cons a as ih =>
    rw [List.flatMap_cons]
    exact (h a List.mem_cons_self).append (ih fun b hb => h b (List.mem_cons_of_mem a hb))

theorem concat {k : Token} (ts : List Token) (h : k.kind ≠ .other) : EndsWhole (ts ++ [k]) := by
  intro l hl hk
  rw [List.getLast?_concat] at hl
  cases hl
  exact absurd hk h

end EndsWhole

theorem Group.endsWhole {o c : TokenKind} (g : Group o c) (h : c ≠ .other) : EndsWhole g.tokens :=
  EndsWhole.concat (g.opening.token :: g.inner) h

theorem DottedName.endsWhole (n : DottedName) : EndsWhole n.tokens := by
  have hfirst : EndsWhole [n.first.token] := EndsWhole.concat [] nofun
  exact hfirst.append (EndsWhole.flatMap fun s _ => EndsWhole.concat [s.dot.token] nofun)

theorem Clause.endsWhole {word : Text} (c : Clause word) : EndsWhole c.tokens := by
  have hkeyword : EndsWhole [c.keyword.token] := EndsWhole.concat [] nofun
  refine hkeyword.append (.append ?_ (c.name.endsWhole.append (.append ?_ ?_)))
  · cases c.static? with
    | none => exact .nil
    | some w => exact EndsWhole.concat [] nofun
  · cases c.star? with
    | none => exact .nil
    | some s =>
      intro k hk _
      cases hk
      rfl
  · cases c.semicolon? with
    | none => exact .nil
    | some sign => exact EndsWhole.concat [] nofun

theorem Attachment.endsWhole (a : Attachment) : EndsWhole a.tokens := by
  cases a with
  | annotationUse sign name named arguments? =>
    have hsign : EndsWhole [sign.token] := EndsWhole.concat [] nofun
    refine hsign.append (name.endsWhole.append ?_)
    cases arguments? with
    | none => exact .nil
    | some g => exact g.endsWhole nofun
  | modifier word listed => exact EndsWhole.concat [] nofun

theorem TypeDeclaration.endsWhole (d : TypeDeclaration) : EndsWhole d.tokens := by
  have hending : EndsWhole d.ending.tokens := by
    cases d.ending with
    | body braces => exact braces.endsWhole nofun
    | semicolon sign => exact EndsWhole.concat [] nofun
  have hne : d.ending.tokens ≠ [] := by
    cases d.ending <;> exact List.cons_ne_nil _ _
  have htokens : d.tokens = d.attachments.flatMap Attachment.tokens ++
      (d.keyword.tokens ++ d.name.token :: d.header) ++ d.ending.tokens := by
    simp [TypeDeclaration.tokens]
  intro k hk
  rw [htokens, List.getLast?_append_of_ne_nil _ hne] at hk
  exact hending k hk

/-- A unit ends with a name, a bracket, a semicolon or the star of an import. -/
theorem CompilationUnit.endsWhole (u : CompilationUnit) : EndsWhole u.tokens := by
  refine .append ?_ (.append (.flatMap fun c _ => c.endsWhole) (.flatMap fun d _ => d.endsWhole))
  cases u.package? with
  | none => exact .nil
  | some p => exact p.toClause.endsWhole

/-! ## The text without the word -/

/-- The text `r` is `t` without the word `w` behind `a` and the blanks `ws` behind the word; all other
tokens are left. -/
structure Removes (a w ws b t r : Text) : Prop where
  text_eq : t = a ++ (w ++ (ws ++ b))
  result_eq : r = a ++ b
  blank : ∀ c ∈ ws, Text.isBlank c = true
  head_not_blank : ∀ c ∈ b.head?, Text.isBlank c = false
  tokens_eq : ∃ ys, tokens t = tokens a ++
      ⟨.word, Text.bytes a, w⟩ :: ys.map (Token.shift (Text.bytes (w ++ ws))) ∧
    tokens r = tokens a ++ ys

/-- **A word between tokens of a unit** can be taken out. -/
theorem exists_removed {t : Text} {xs ys : List Token} {k : Token} (ht : tokens t = xs ++ k :: ys)
    (hk : k.kind = .word) (hxs : EndsWhole xs) (hys : Starts ys) :
    ∃ a ws b, Removes a k.text ws b t (a ++ b) ∧ k.start = Text.bytes a ∧ tokens a = xs := by
  obtain ⟨a, z, htext, rfl, hstart, hpieces, rfl⟩ := exists_split_of_tokens ht
  obtain ⟨kind, start, w⟩ := k
  obtain rfl : kind = .word := hk
  obtain rfl : start = Text.bytes a := hstart
  have hz : Starts (tokens z) := by
    rw [place_eq_map] at hys
    intro k hk
    exact hys (k.shift _) (by rw [List.head?_map, hk]; rfl)
  obtain ⟨hblanks, hhead⟩ := head_pieces_dropWhile hz
  have hz' : z.takeWhile Text.isBlank ++ z.dropWhile Text.isBlank = z :=
    List.takeWhile_append_dropWhile
  have hclose := pieces_close_up (htext ▸ hpieces) hxs hhead
  obtain ⟨hws, hb⟩ := of_takeWhile_dropWhile Text.isBlank z
  generalize z.takeWhile Text.isBlank = ws, z.dropWhile Text.isBlank = b at *
  subst hz'
  refine ⟨a, ws, b, ⟨htext, rfl, hws, hb, _, ?_, tokens_append hclose⟩, rfl, rfl⟩
  rw [ht, hblanks, place_append, place_map_blank, flatMap_map_blank, List.nil_append, place_eq_map,
    map_shift_map_shift, Text.bytes_append, Nat.add_comm _ (Text.bytes a), ← Nat.add_assoc]
  rfl

/-- What is left are the tokens around the word. -/
theorem Removes.forall₂_tokens {a w ws b t r : Text} {k : Token} {ys : List Token}
    (h : Removes a w ws b t r) (ht : tokens t = tokens a ++ k :: ys) :
    List.Forall₂ (Token.Rel fun _ _ => True) (tokens a ++ ys) (tokens r) := by
  obtain ⟨zs, ht', hr⟩ := h.tokens_eq
  rw [ht'] at ht
  obtain ⟨-, rfl⟩ := List.cons.inj (List.append_cancel_left ht)
  rw [hr]
  refine List.rel_append (forall₂_self _) ?_
  rw [List.forall₂_map_left_iff]
  exact List.forall₂_same.2 fun k _ => ⟨rfl, .inl rfl, trivial, trivial⟩

end Source

/-! ## The edit -/

namespace Declaration

variable {t : Text} {u : CompilationUnit} {ds es : List TypeDeclaration} {T : TypeDeclaration}
  {v : Visibility} {span : Span}

/-- The edit of a type takes the modifier that gives its level from its attachments. -/
theorem exists_visibilityEdit_package (hu : tokens t = u.tokens) (htypes : u.types = ds ++ T :: es)
    (hone : T.HasOneLevel) (hlevel : T.level? = some (v, span)) :
    ∃ e r a w ws b as, T.declaration.visibilityEdit .package t = .ok (some e) ∧
      e.apply t = .ok r ∧ v.keyword? = some w ∧
      span = ⟨Text.bytes a, Text.bytes a + Text.bytes w⟩ ∧ Removes a w ws b t r ∧
      { u with types := ds ++ { T with attachments := as } :: es }.Reads r ∧
      levelOf as = .package := by
  obtain ⟨as, word, listed, bs, has, hword, rfl, hnone, hnone'⟩ := hone.exists_modifier hlevel
  have ht : tokens t = ({ u with types := ds }.tokens ++ as.flatMap Attachment.tokens) ++
      word.token :: (bs.flatMap Attachment.tokens ++
        (T.stem ++ es.flatMap TypeDeclaration.tokens)) := by
    rw [hu, tokens_of_types htypes, has]
    simp [Attachment.tokens]
  have hstarts : Starts (bs.flatMap Attachment.tokens ++
      (T.stem ++ es.flatMap TypeDeclaration.tokens)) :=
    starts_flatMap (fun a _ => a.starts) (T.starts_stem _)
  obtain ⟨a, ws, b, hr, hstart, ha⟩ : ∃ a ws b, Removes a word.text ws b t (a ++ b) ∧ _ :=
    exists_removed ht rfl (EndsWhole.append (CompilationUnit.endsWhole _)
      (.flatMap fun a _ => a.endsWhole)) hstarts
  have hne : T.declaration.visibility ≠ .package := by
    rw [T.visibility_declaration hlevel]
    rintro rfl
    cases hword
  have hspan : word.token.span = ⟨Text.bytes a, Text.bytes a + Text.bytes word.text⟩ := by
    rw [← hstart]
    rfl
  have hedit := visibilityEdit_remove_blanks (a := a) (w := word.text) hne
    ((T.visibilitySpan?_declaration hlevel).trans (congrArg some hspan)) hr.blank hr.head_not_blank
  rw [← hr.text_eq] at hedit
  have happly := Edit.apply_between a (word.text ++ ws) [] b
  rw [List.append_assoc, List.nil_append, ← hr.text_eq] at happly
  refine ⟨_, a ++ b, a, word.text, ws, b, as ++ bs, hedit, happly, hword, hspan, hr, ?_, ?_⟩
  · have hleft := hr.forall₂_tokens (ha ▸ ht)
    rw [ha] at hleft
    unfold CompilationUnit.Reads
    rw [tokens_with_attachments, List.flatMap_append]
    simpa using hleft
  · rw [levelOf, List.filterMap_append, hnone, hnone']
    rfl

/-- **Giving a declaration of a unit the package's level**, where no type of the unit names two: the
edit applies and takes out the word of the level and the blanks behind it, all other tokens are left,
and the text has the same declarations but for this level. -/
theorem visibilityEdit_removes {i : Nat} {d : Declaration} (hu : tokens t = u.tokens)
    (hone : ∀ T ∈ u.types, T.HasOneLevel) (hd : (declarations t)[i]? = some d)
    (hs : d.visibilitySpan? = some span) :
    ∃ e r a w ws b, d.visibilityEdit .package t = .ok (some e) ∧ e.apply t = .ok r ∧
      d.visibility.keyword? = some w ∧ span = ⟨Text.bytes a, Text.bytes a + Text.bytes w⟩ ∧
      Removes a w ws b t r ∧ (declarations r).map outline =
        ((declarations t).map outline).set i (d.name, d.kind, .package) := by
  obtain ⟨ds, T, es, htypes, rfl, rfl⟩ := exists_type hu hd
  obtain ⟨⟨v, span'⟩, hlevel, rfl⟩ := Option.map_eq_some_iff.1 hs
  obtain ⟨e, r, a, w, ws, b, as, he, hr, hw, hspan, hremoves, hreads, has⟩ :=
    exists_visibilityEdit_package hu htypes (hone T (by rw [htypes]; simp)) hlevel
  refine ⟨e, r, a, w, ws, b, he, hr, T.visibility_declaration hlevel ▸ hw, hspan, hremoves, ?_⟩
  rw [hreads.map_outline, map_outline_of_types htypes, (reads_of_eq hu).map_outline, has]
  rfl

/-- The word between the star of an import and a comment, which the star comes to touch. -/
theorem visibilityEdit_removes_star :
    let t : Text := "import a.*private /**/class B;"
    ∃ (u : CompilationUnit) (d : Declaration) (span : Span) (e : Edit) (r : Text),
      tokens t = u.tokens ∧ (∀ T ∈ u.types, T.HasOneLevel) ∧
      (declarations t)[0]? = some d ∧ d.visibilitySpan? = some span ∧
      d.visibilityEdit .package t = .ok (some e) ∧ e.apply t = .ok r ∧
      (declarations r).map outline = [(['B'], .plain, .package)] := by
  intro t
  let u : CompilationUnit :=
    { package? := none
      imports := [⟨⟨0⟩, none, ⟨⟨7, "a"⟩, []⟩, by decide, some ⟨⟨8, "."⟩, ⟨9⟩⟩, none⟩]
      types := [
        { attachments := [.modifier ⟨10, "private"⟩ (by decide)]
          keyword := .plain ⟨22⟩
          name := ⟨28, "B"⟩
          header := []
          plain := .nil
          ending := .semicolon ⟨29, ";"⟩ }] }
  have hu : tokens t = u.tokens := by decide +kernel
  have hone : ∀ T ∈ u.types, T.HasOneLevel := by
    intro T hT
    obtain rfl := List.mem_singleton.1 hT
    exact Nat.le_refl 1
  have hd : (declarations t)[0]? =
      some ⟨"B", .plain, .priv, some ⟨10, 17⟩, 10, ⟨10, 30⟩, ⟨28, 29⟩, none⟩ := by decide +kernel
  have ho : ((declarations t).map outline).set 0 (['B'], .plain, .package) =
      [(['B'], .plain, .package)] := by decide +kernel
  obtain ⟨e, r, _, _, _, _, he, hr, -, -, -, hall⟩ := visibilityEdit_removes hu hone hd rfl
  exact ⟨u, _, _, e, r, hu, hone, hd, rfl, he, hr, hall.trans ho⟩

end Declaration

end QuickFix
