import QuickFix.Proofs.Source.Removing

/-!
# Another level for a type of a unit

The edit that gives a type of a compilation unit another level puts a modifier in, puts another one in
the place of the one that gave the level, or takes that one out. The text then reads as the unit with
these attachments of the type, so that it declares the same otherwise, and its package is the same.
-/

namespace QuickFix

open Source Source.Scanner

theorem Visibility.mem_modifiers {v : Visibility} {w : Text} (h : v.keyword? = some w) :
    w ∈ modifiers := by
  cases v <;> cases h <;> decide

namespace Source

/-- A level that is named once is the level. -/
theorem levelOf_append_cons {as bs : List Attachment} {v : Visibility} {w : Leaf .word}
    (hw : v.keyword? = some w.text) (has : as.filterMap Attachment.level? = [])
    (hbs : bs.filterMap Attachment.level? = []) :
    levelOf (as ++ .modifier w (Visibility.mem_modifiers hw) :: bs) = v := by
  have hlevel : (Attachment.modifier w (Visibility.mem_modifiers hw)).level? =
      some (v, w.token.span) := by
    show (Visibility.ofKeyword? w.text).map _ = _
    rw [Visibility.ofKeyword?_eq_some_iff.2 hw]
    rfl
  rw [levelOf, List.filterMap_append, List.filterMap_cons_some hlevel, has, hbs]
  rfl

/-- A type other than an annotation type has a place for a modifier: before its first one, or before
its keyword. -/
theorem TypeDeclaration.exists_modifierPlace (T : TypeDeclaration)
    (hk : T.keyword.kind ≠ .annotationType) (us : List Token) :
    ∃ as bs k ys, T.attachments = as ++ bs ∧
      bs.flatMap Attachment.tokens ++ (T.stem ++ us) = k :: ys ∧ k.kind = .word ∧
      T.declaration.modifierStart = k.start := by
  cases hm : T.modifiers with
  | nil =>
    have hstart : T.declaration.modifierStart = T.keyword.start := by
      simp only [declaration, hm, List.head?_nil, Option.map_none, Option.getD_none]
    cases hkey : T.keyword with
    | annotationType sign word => exact absurd (congrArg Keyword.kind hkey) hk
    | plain word | interface word | enum word =>
      rw [hkey] at hstart
      refine ⟨T.attachments, [], word.token, T.name.token :: (T.header ++ T.ending.tokens) ++ us,
        (List.append_nil _).symm, ?_, rfl, hstart⟩
      rw [stem, hkey]
      rfl
  | cons m ms =>
    obtain ⟨as, a, bs, hsplit, -, ha, -⟩ := List.filterMap_eq_cons_iff.1 hm
    cases a with
    | annotationUse => cases ha
    | modifier word listed =>
      obtain rfl := Option.some.inj ha
      refine ⟨as, .modifier word listed :: bs, word.token, _, hsplit, rfl, rfl, ?_⟩
      simp only [declaration, hm, List.head?_cons, Option.map_some, Option.getD_some]

variable {u : CompilationUnit} {ds es : List TypeDeclaration} {T : TypeDeclaration}

/-- A modifier between attachments of a type is read before what followed the first of them. -/
theorem reads_with_modifier {as bs : List Attachment} {n : Nat} {w r : Text} {us : List Token}
    (hw : w ∈ modifiers) (hr : tokens r =
      ({ u with types := ds }.tokens ++ as.flatMap Attachment.tokens) ++ ⟨.word, n, w⟩ :: us)
    (hus : List.Forall₂ (Token.Rel fun _ _ => True) (bs.flatMap Attachment.tokens ++
      (T.stem ++ es.flatMap TypeDeclaration.tokens)) us) :
    { u with types := ds ++ { T with attachments := as ++ Attachment.modifier ⟨n, w⟩ hw :: bs } ::
      es }.Reads r := by
  have htokens : { u with types :=
        ds ++ { T with attachments := as ++ Attachment.modifier ⟨n, w⟩ hw :: bs } :: es }.tokens =
      ({ u with types := ds }.tokens ++ as.flatMap Attachment.tokens) ++ ⟨.word, n, w⟩ ::
        (bs.flatMap Attachment.tokens ++ (T.stem ++ es.flatMap TypeDeclaration.tokens)) := by
    rw [tokens_with_attachments, List.flatMap_append, List.flatMap_cons]
    simp [Attachment.tokens, Leaf.token]
  unfold CompilationUnit.Reads
  rw [htokens, hr]
  exact List.rel_append (forall₂_self _) (.cons (.self _) hus)

end Source

namespace Declaration

variable {t : Text} {u : CompilationUnit} {ds es : List TypeDeclaration} {T : TypeDeclaration}
  {v : Visibility} {w : Text}

/-- The edit of a type without a level puts the word in. -/
theorem exists_visibilityEdit_put (hu : tokens t = u.tokens) (htypes : u.types = ds ++ T :: es)
    (hk : T.keyword.kind ≠ .annotationType) (hlevel : T.level? = none) (hw : v.keyword? = some w) :
    ∃ e r as, T.declaration.visibilityEdit v t = .ok (some e) ∧ e.apply t = .ok r ∧
      { u with types := ds ++ { T with attachments := as } :: es }.Reads r ∧ levelOf as = v := by
  obtain ⟨as, bs, k, ys, hsplit, hrest, hword, hstart⟩ :=
    T.exists_modifierPlace hk (es.flatMap TypeDeclaration.tokens)
  have ht : tokens t = ({ u with types := ds }.tokens ++ as.flatMap Attachment.tokens) ++ k :: ys := by
    rw [hu, tokens_of_types htypes, hsplit, List.flatMap_append, List.append_assoc, hrest,
      List.append_assoc]
  obtain ⟨a, z, htext, ha, hplace, hpieces, rfl⟩ := exists_split_of_tokens ht
  have hlast : ∀ p ∈ (pieces a).getLast?, p.kind ≠ .token .word := by
    rw [hword] at hpieces
    exact (word_of_pieces (htext ▸ hpieces)).2
  have htokens := tokens_put_word
    (pieces_put_word (htext ▸ hpieces) hlast (Visibility.isIdentifier_keyword hw))
  -- the edit
  have hvisibility : T.declaration.visibility = .package := by
    simp only [TypeDeclaration.declaration, hlevel, Option.map_none, Option.getD_none]
  have hne : T.declaration.visibility ≠ v := by
    rw [hvisibility]
    rintro rfl
    cases hw
  have hspan : T.declaration.visibilitySpan? = none := by
    simp only [TypeDeclaration.declaration, hlevel, Option.map_none]
  have hedit := visibilityEdit_insert t hne hspan hw
  rw [hstart, hplace] at hedit
  have happly := Edit.apply_between a [] (w ++ [' ']) (k.text ++ z)
  rw [List.nil_append, ← htext, List.append_assoc] at happly
  -- the text
  obtain ⟨has, hbs⟩ : as.filterMap Attachment.level? = [] ∧ bs.filterMap Attachment.level? = [] := by
    rw [T.level?_eq, hsplit, List.filterMap_append, List.getLast?_eq_none_iff] at hlevel
    exact List.append_eq_nil_iff.1 hlevel
  refine ⟨_, _, as ++ .modifier ⟨Text.bytes a, w⟩ (Visibility.mem_modifiers hw) :: bs, hedit, happly,
    ?_, levelOf_append_cons hw has hbs⟩
  have hmoved : List.Forall₂ (Token.Rel fun _ _ => True) (k :: place k.stop (pieces z))
      (place (Text.bytes a + Text.bytes w + Text.bytes [' '])
        (⟨.token k.kind, k.text⟩ :: pieces z)) :=
    place_rel (m := k.start) (fun _ => trivial) (⟨.token k.kind, k.text⟩ :: pieces z)
  rw [ha] at htokens
  exact reads_with_modifier _ htokens (hrest ▸ hmoved)

/-- The edit of a type with a level puts the word in the place of that of the level. -/
theorem exists_visibilityEdit_replace {v' : Visibility} {span : Span} (hu : tokens t = u.tokens)
    (htypes : u.types = ds ++ T :: es) (hone : T.HasOneLevel) (hlevel : T.level? = some (v', span))
    (hne : v' ≠ v) (hw : v.keyword? = some w) :
    ∃ e r as, T.declaration.visibilityEdit v t = .ok (some e) ∧ e.apply t = .ok r ∧
      { u with types := ds ++ { T with attachments := as } :: es }.Reads r ∧ levelOf as = v := by
  obtain ⟨as, word, listed, bs, hsplit, -, rfl, has, hbs⟩ := hone.exists_modifier hlevel
  have ht : tokens t = ({ u with types := ds }.tokens ++ as.flatMap Attachment.tokens) ++
      word.token :: (bs.flatMap Attachment.tokens ++
        (T.stem ++ es.flatMap TypeDeclaration.tokens)) := by
    rw [hu, tokens_of_types htypes, hsplit]
    simp [Attachment.tokens]
  obtain ⟨a, z, htext, ha, hplace, hpieces, hrest⟩ := exists_split_of_tokens ht
  have htokens := tokens_replace_word (htext ▸ hpieces) (Visibility.isIdentifier_keyword hw)
  have hedit := visibilityEdit_replace t (T.visibility_declaration hlevel ▸ hne)
    (T.visibilitySpan?_declaration hlevel) hw
  have hspan : word.token.span = ⟨Text.bytes a, Text.bytes a + Text.bytes word.text⟩ := by
    rw [← show word.start = Text.bytes a from hplace]
    rfl
  rw [hspan] at hedit
  have happly := Edit.apply_between a word.text w z
  rw [← show t = a ++ (word.text ++ z) from htext] at happly
  rw [ha] at htokens
  refine ⟨_, _, as ++ .modifier ⟨Text.bytes a, w⟩ (Visibility.mem_modifiers hw) :: bs, hedit, happly,
    reads_with_modifier _ htokens ?_, levelOf_append_cons hw has hbs⟩
  rw [← hrest]
  exact place_rel (fun _ => trivial) (pieces z)

/-- **Another level for a type of a unit** in which no type names two: the edit applies, and the text
has the same declarations but for this level, and the same name in its package statement. -/
theorem exists_visibilityEdit_of_unit {i : Nat} {d : Declaration} (hu : tokens t = u.tokens)
    (hone : ∀ T ∈ u.types, T.HasOneLevel)
    (hhead : ∀ T ∈ u.types.head?, T.keyword.kind ≠ .annotationType)
    (hd : (declarations t)[i]? = some d) (hk : d.kind ≠ .annotationType) (hne : d.visibility ≠ v) :
    ∃ e r, d.visibilityEdit v t = .ok (some e) ∧ e.apply t = .ok r ∧
      (declarations r).map outline = ((declarations t).map outline).set i (d.name, d.kind, v) ∧
      (packageOf? r).map (·.name) = (packageOf? t).map (·.name) := by
  obtain ⟨ds, T, es, htypes, rfl, rfl⟩ := exists_type hu hd
  obtain ⟨e, r, as, he, hr, hreads, has⟩ : ∃ e r as,
      T.declaration.visibilityEdit v t = .ok (some e) ∧ e.apply t = .ok r ∧
      { u with types := ds ++ { T with attachments := as } :: es }.Reads r ∧ levelOf as = v := by
    have hone : T.HasOneLevel := hone T (by rw [htypes]; simp)
    cases hlevel : T.level? with
    | none =>
      have hv : v ≠ .package := by
        rintro rfl
        exact hne (by simp only [TypeDeclaration.declaration, hlevel, Option.map_none,
          Option.getD_none])
      obtain ⟨w, hw⟩ := Visibility.exists_keyword hv
      exact exists_visibilityEdit_put hu htypes hk hlevel hw
    | some level =>
      obtain ⟨v', span⟩ := level
      rw [T.visibility_declaration hlevel] at hne
      by_cases hv : v = .package
      · subst hv
        obtain ⟨e, r, _, _, _, _, as, he, hr, -, -, -, hreads, has⟩ :=
          exists_visibilityEdit_package hu htypes hone hlevel
        exact ⟨e, r, as, he, hr, hreads, has⟩
      · obtain ⟨w, hw⟩ := Visibility.exists_keyword hv
        exact exists_visibilityEdit_replace hu htypes hone hlevel hne hw
  refine ⟨e, r, he, hr, ?_, ?_⟩
  · rw [hreads.map_outline, map_outline_of_types htypes, (reads_of_eq hu).map_outline, has]
    rfl
  · rw [(reads_of_eq hu).packageOf? hhead, hreads.packageOf?]
    intro S hS
    cases ds with
    | nil =>
      obtain rfl := Option.some.inj hS
      exact hk
    | cons S' ds =>
      obtain rfl := Option.some.inj hS
      exact hhead S' (by rw [htypes]; rfl)

end Declaration

end QuickFix
