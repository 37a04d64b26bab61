import QuickFix.Proofs.Source.Grammar
import QuickFix.Proofs.Source.Scanning

/-!
# Reading a compilation unit

`declarations_of_tokens`: of a text whose tokens spell a compilation unit, the declarations found are
those of the unit. Balanced tokens do not change the depth that a search for a bracket has reached
(`Balanced.closing?_append`, `PlainHeader.headerEnd?_append`), and a name, a clause or an annotation
is read to its end when what follows starts with a word or an `@` (`Starts`).
-/

namespace QuickFix

namespace Source

/-! ## Brackets -/

theorem closing?_opening {o c : TokenKind} {t : Token} (h : t.kind = o) (depth : Nat)
    (ts : List Token) : closing? o c depth (t :: ts) = closing? o c (depth + 1) ts := by
  cases depth <;> rw [closing?, if_pos h]

theorem closing?_other {o c : TokenKind} {t : Token} (ho : t.kind ≠ o) (hc : t.kind ≠ c)
    (depth : Nat) (ts : List Token) : closing? o c depth (t :: ts) = closing? o c depth ts := by
  cases depth <;> rw [closing?, if_neg ho, if_neg hc]

theorem Balanced.closing?_append {o c : TokenKind} {ts : List Token} (h : Balanced o c ts)
    (hoc : c ≠ o) (depth : Nat) (us : List Token) :
    closing? o c depth (ts ++ us) = closing? o c depth us := by
  induction h generalizing depth us with
  | nil => rfl
  | plain ho hc _ ih => rw [List.cons_append, closing?_other ho hc, ih]
  | @group a b inner ts ha _ hb _ ihinner ih =>
    have hbo : b.kind ≠ o := by rw [hb]; exact hoc
    rw [List.cons_append, List.append_assoc, List.cons_append, closing?_opening ha, ihinner, closing?,
      if_neg hbo, if_pos hb]
    exact ih depth us

theorem Group.closing?_eq {o c : TokenKind} (g : Group o c) (hoc : c ≠ o) (us : List Token) :
    closing? o c 0 (g.inner ++ g.closing.token :: us) = some (g.closing.token, us) := by
  have ho : g.closing.token.kind ≠ o := hoc
  have hc : g.closing.token.kind = c := rfl
  rw [g.balanced.closing?_append hoc, closing?, if_neg ho, if_pos hc]

theorem Balanced.headerEnd?_append {ts : List Token} (h : Balanced .openParen .closeParen ts)
    (depth : Nat) (us : List Token) :
    headerEnd? (depth + 1) (ts ++ us) = headerEnd? (depth + 1) us := by
  induction h generalizing depth us with
  | nil => rfl
  | plain ho hc _ ih =>
    rw [List.cons_append, headerEnd?, if_neg ho, if_neg hc, if_neg (fun h => Nat.succ_ne_zero _ h.1),
      ih]
  | @group a b inner ts ha _ hb _ ihinner ih =>
    have hbo : b.kind ≠ .openParen := by rw [hb]; decide
    rw [List.cons_append, List.append_assoc, List.cons_append, headerEnd?, if_pos ha, ihinner,
      headerEnd?, if_neg hbo, if_pos hb]
    exact ih depth us

theorem PlainHeader.headerEnd?_append {ts : List Token} (h : PlainHeader ts) (us : List Token) :
    headerEnd? 0 (ts ++ us) = headerEnd? 0 us := by
  induction h with
  | nil => rfl
  | @plain k ts hk _ ih =>
    have hne : ∀ kind ∈ [TokenKind.openParen, .closeParen, .openBrace, .semicolon], k.kind ≠ kind :=
      fun kind hm he => hk (he ▸ hm)
    have hend : ¬ (0 = 0 ∧ (k.kind = .openBrace ∨ k.kind = .semicolon)) := by
      rintro ⟨-, h | h⟩
      · exact hne _ (by decide) h
      · exact hne _ (by decide) h
    rw [List.cons_append, headerEnd?, if_neg (hne _ (by decide)), if_neg (hne _ (by decide)),
      if_neg hend, ih]
  | group g _ ih =>
    have ho : g.opening.token.kind = .openParen := rfl
    have hc : g.closing.token.kind = .closeParen := rfl
    have hco : g.closing.token.kind ≠ .openParen := by rw [hc]; decide
    rw [Group.tokens, List.cons_append, List.cons_append, List.append_assoc, List.append_assoc,
      List.singleton_append, headerEnd?, if_pos ho,
      g.balanced.headerEnd?_append, headerEnd?, if_neg hco, if_pos hc]
    exact ih

/-- What follows the name of a declaration is its header and its ending. -/
theorem tailOf_eq {header : List Token} (h : PlainHeader header) (e : Ending) (last : Nat)
    (us : List Token) : tailOf last (header ++ (e.tokens ++ us)) = ⟨e.bodySpan?, e.stop, us⟩ := by
  unfold tailOf
  rw [h.headerEnd?_append]
  cases e with
  | body braces =>
    have hs : (Ending.body braces).tokens ++ us =
        braces.opening.token :: (braces.inner ++ braces.closing.token :: us) := by
      simp [Ending.tokens, Group.tokens]
    have hend : headerEnd? 0 (braces.opening.token :: (braces.inner ++ braces.closing.token :: us)) =
        some (braces.opening.token, braces.inner ++ braces.closing.token :: us) := rfl
    have hk : braces.opening.token.kind = .openBrace := rfl
    simp only [hs, hend, hk, if_true, braces.closing?_eq (by decide)]
    rfl
  | semicolon sign => rfl

/-! ## Names and clauses -/

/-- The tokens start with a word or an `@`, if there are any. -/
def Starts (ts : List Token) : Prop := ∀ k ∈ ts.head?, k.kind = .word ∨ k.kind = .at

theorem Starts.nil : Starts [] := fun k hk => by cases hk

theorem Starts.append {ts us : List Token} (h : Starts ts) (h' : Starts us) : Starts (ts ++ us) := by
  cases ts with
  | nil => exact h'
  | cons k ts => exact h

theorem starts_flatMap {α : Type} {f : α → List Token} {as : List α} {us : List Token}
    (h : ∀ a ∈ as, Starts (f a)) (h' : Starts us) : Starts (as.flatMap f ++ us) := by
  induction as with
  | nil => exact h'
  | cons a as ih =>
    rw [List.flatMap_cons, List.append_assoc]
    exact (h a List.mem_cons_self).append (ih fun b hb => h b (List.mem_cons_of_mem _ hb))

theorem starts_of_word {k : Token} (h : k.kind = .word) (ts : List Token) : Starts (k :: ts) :=
  fun _ hl => .inl (Option.some.inj hl ▸ h)

theorem starts_of_at {k : Token} (h : k.kind = .at) (ts : List Token) : Starts (k :: ts) :=
  fun _ hl => .inr (Option.some.inj hl ▸ h)

theorem Attachment.starts (a : Attachment) : Starts a.tokens := by
  cases a with
  | annotationUse sign name named arguments? => exact starts_of_at rfl _
  | modifier word listed => exact starts_of_word rfl _

theorem Clause.starts {word : Text} (c : Clause word) : Starts c.tokens := starts_of_word rfl _

theorem Keyword.starts_append (k : Keyword) (ts : List Token) : Starts (k.tokens ++ ts) := by
  cases k with
  | plain | interface | enum => exact starts_of_word rfl _
  | annotationType => exact starts_of_at rfl _

theorem TypeDeclaration.starts (d : TypeDeclaration) : Starts d.tokens :=
  starts_flatMap (fun a _ => a.starts) (d.keyword.starts_append _)

theorem Starts.ne {ts us : List Token} {k : Token} (h : Starts ts) (hs : ts = k :: us)
    {kind : TokenKind} (hw : kind ≠ .word) (ha : kind ≠ .at) : k.kind ≠ kind := by
  subst hs
  rintro rfl
  exact (h k rfl).elim hw ha

/-- The tokens do not go on a dotted name. -/
def EndsName (ts : List Token) : Prop :=
  ∀ dot word us, ts = dot :: word :: us → dot.kind = .dot → word.kind ≠ .word

theorem Starts.endsName {ts : List Token} (h : Starts ts) : EndsName ts :=
  fun _ _ _ hs hd => absurd hd (h.ne hs (by decide) (by decide))

theorem moreSegments_more (segments : List Segment) {ts : List Token}
    (h : EndsName ts) (name : Text) (last : Token) :
    ∃ l, moreSegments name last (segments.flatMap Segment.tokens ++ ts) =
      (name ++ segments.flatMap fun s => '.' :: s.word.text, l, ts) := by
  induction segments generalizing name last with
  | nil =>
    refine ⟨last, ?_⟩
    rw [List.flatMap_nil, List.nil_append, List.flatMap_nil, List.append_nil]
    fun_cases moreSegments name last ts with
    | case1 d w us hd => exact absurd hd.2 (h d w us rfl hd.1)
    | case2 | case3 => rfl
  | cons s segments ih =>
    obtain ⟨l, hl⟩ := ih (name ++ ['.'] ++ s.word.text) s.word.token
    refine ⟨l, ?_⟩
    have hs : s.dot.token.kind = .dot ∧ s.word.token.kind = .word := ⟨rfl, rfl⟩
    rw [List.append_assoc, List.append_assoc] at hl
    simp only [List.flatMap_cons, Segment.tokens, List.cons_append, List.nil_append, moreSegments,
      if_pos hs, List.append_assoc]
    exact hl

/-- A dotted name is read to its end. -/
theorem DottedName.dottedName?_tokens (n : DottedName) {ts : List Token} (h : EndsName ts) :
    ∃ last, dottedName? (n.tokens ++ ts) = some (n.text, last, ts) := by
  obtain ⟨last, hl⟩ := moreSegments_more n.more h n.first.text n.first.token
  have hw : n.first.token.kind = .word := rfl
  refine ⟨last, ?_⟩
  rw [tokens, List.cons_append, dottedName?, if_pos hw]
  exact congrArg some hl

/-- An annotation is read to its end. -/
theorem annotationRest_tokens (name : DottedName)
    (arguments? : Option (Group .openParen .closeParen)) {ts : List Token} (h : Starts ts) :
    annotationRest (name.tokens ++ ((arguments?.map Group.tokens).getD [] ++ ts)) = ts := by
  cases arguments? with
  | none =>
    obtain ⟨l, hn⟩ := name.dottedName?_tokens h.endsName
    simp only [annotationRest, Option.map_none, Option.getD_none, List.nil_append, hn]
    cases ts with
    | nil => rfl
    | cons k us => exact if_neg (h.ne rfl (by decide) (by decide))
  | some g =>
    have hg : (Option.map Group.tokens (some g)).getD [] ++ ts =
        g.opening.token :: (g.inner ++ g.closing.token :: ts) := by
      simp [Group.tokens]
    have hends : EndsName (g.opening.token :: (g.inner ++ g.closing.token :: ts)) := by
      intro d w us hs hd
      obtain ⟨rfl, -⟩ := List.cons.inj hs
      cases hd
    obtain ⟨l, hn⟩ := name.dottedName?_tokens hends
    have hk : g.opening.token.kind = .openParen := rfl
    simp only [annotationRest, hg, hn, hk, if_true, g.closing?_eq (by decide)]
    rfl

theorem skipStar_of_ne {ts : List Token} (h : ∀ k ∈ ts.head?, k.kind ≠ .dot) : skipStar ts = ts := by
  fun_cases skipStar ts with
  | case1 d s ts hd => exact absurd hd.1 (h d rfl)
  | case2 | case3 => rfl

/-- A clause is read to its end. -/
theorem Clause.afterStatement_tail {word : Text} (c : Clause word) {ts : List Token}
    (h : Starts ts) : afterStatement (c.tail ++ ts) = ts := by
  -- the semicolon, if there is one, and what follows
  generalize hs : (c.semicolon?.map Leaf.token).toList ++ ts = semicolon
  have hsemicolon : skipIf (·.kind = .semicolon) semicolon = ts ∧
      ∀ k ∈ semicolon.head?, k.kind ≠ .dot := by
    subst hs
    cases c.semicolon? with
    | none =>
      refine ⟨?_, fun k hk => ?_⟩
      · cases ts with
        | nil => rfl
        | cons k us => exact if_neg fun he => h.ne rfl (by decide) (by decide) (of_decide_eq_true he)
      · obtain ⟨us, hus⟩ := List.head?_eq_some_iff.1 hk
        exact h.ne hus (by decide) (by decide)
    | some sign =>
      refine ⟨rfl, fun k hk => ?_⟩
      obtain rfl : sign.token = k := Option.some.inj hk
      exact fun he => by cases he
  -- the dot and the star, if they are there
  generalize hr : (c.star?.map Star.tokens).getD [] ++ semicolon = star
  have hstar : skipStar star = semicolon ∧ EndsName star := by
    subst hr
    cases c.star? with
    | none =>
      refine ⟨skipStar_of_ne hsemicolon.2, fun d w us he hd => ?_⟩
      exact absurd hd (hsemicolon.2 d (List.head?_eq_some_iff.2 ⟨_, he⟩))
    | some s =>
      have hk : s.dot.token.kind = .dot ∧ s.sign.token.text = ['*'] := ⟨rfl, rfl⟩
      refine ⟨?_, fun d w us he hd => ?_⟩
      · show skipStar (s.dot.token :: s.sign.token :: semicolon) = semicolon
        rw [skipStar, if_pos hk]
      · obtain ⟨-, rfl, -⟩ := he
        exact fun hw => by cases hw
  have hname : skipName (c.name.tokens ++ star) = star := by
    obtain ⟨l, hn⟩ := c.name.dottedName?_tokens hstar.2
    rw [skipName, hn]
  have hstatic : skipIf (·.text = "static") (c.tail ++ ts) = c.name.tokens ++ star := by
    rw [Clause.tail, List.append_assoc, List.append_assoc, List.append_assoc, hs, hr]
    cases hc : c.static? with
    | none =>
      have hne : ¬ c.name.first.token.text = "static" := c.first_ne_static hc
      exact if_neg fun he => hne (of_decide_eq_true he)
    | some word => rfl
  rw [afterStatement, hstatic, hname, hstar.1, hsemicolon.1]

/-! ## Roles -/

theorem role_annotationUse {dot : Bool} {t w : Token} {ts : List Token} (ht : t.kind = .at)
    (hw : w.text ≠ "interface") : role dot t (w :: ts) = .annotationUse := by
  have hword : ∀ text, t.isWord text = false := fun text => by simp [Token.isWord, ht]
  have hne : (w :: ts).head?.map (·.text) ≠ some ("interface" : Text) := fun h =>
    hw (Option.some.inj h)
  rw [role, if_neg (by simp [hword]), if_pos ht, if_neg hne]

theorem role_annotationType {dot : Bool} {t w : Token} {ts : List Token} (ht : t.kind = .at)
    (hw : w.text = "interface") : role dot t (w :: ts) = .annotationType := by
  have hword : ∀ text, t.isWord text = false := fun text => by simp [Token.isWord, ht]
  have heq : (w :: ts).head?.map (·.text) = some ("interface" : Text) := congrArg some hw
  rw [role, if_neg (by simp [hword]), if_pos ht, if_pos heq]

theorem role_modifier {dot : Bool} {t : Token} {ts : List Token} (ht : t.kind = .word)
    (hm : t.text ∈ modifiers) : role dot t ts = .modifier := by
  have hall : ∀ text ∈ modifiers, text ≠ "package" ∧ text ≠ "import" := by decide
  have hword : ¬ (t.isWord "package" = true ∨ t.isWord "import" = true) := by
    obtain ⟨hp, hi⟩ := hall _ hm
    simp only [Token.isWord, Bool.and_eq_true, decide_eq_true_eq]
    exact fun h => h.elim (fun h => hp h.2) fun h => hi h.2
  have hat : t.kind ≠ .at := by rw [ht]; decide
  rw [role, if_neg hword, if_neg hat, if_pos ⟨ht, hm⟩]

/-! ## The scan -/

namespace Scanner

variable (last : Nat) {ts : List Token}

theorem Runs.silent {last : Nat} {s s' s'' : Scanner} {ds : List Declaration} (hr : s.rest ≠ [])
    (h : s.step last = (none, s')) (h' : Runs last s' ds s'') : Runs last s ds s'' :=
  .step hr h h'

theorem Runs.found {last : Nat} {s s' : Scanner} {d : Declaration} (hr : s.rest ≠ [])
    (h : s.step last = (some d, s')) : Runs last s [d] s' := .step hr h (.refl s')

theorem runs_clause {word : Text} (c : Clause word) (hw : word = "package" ∨ word = "import")
    (h : Starts ts) : Runs last (start (c.tokens ++ ts)) [] (start ts) := by
  have hrole : role false c.keyword.token (c.tail ++ ts) = .statement := by
    rcases hw with rfl | rfl
    · exact if_pos (.inl rfl)
    · exact if_pos (.inr rfl)
  refine .silent (List.cons_ne_nil _ _) ?_ (.refl _)
  simp only [step, start, Clause.tokens, List.cons_append, hrole, c.afterStatement_tail h]

end Scanner

/-- Read what stands before a keyword. -/
def Header.attach (h : Header) : Attachment → Header
  | .annotationUse sign .. => h.addAnnotationAt sign.start
  | .modifier word _ => h.addModifier word.token

namespace Header

variable (as : List Attachment) (h : Header)

theorem start?_foldl :
    (as.foldl attach h).start? = h.start?.or (as.head?.map Attachment.start) := by
  induction as generalizing h with
  | nil => simp
  | cons a as ih =>
    rw [List.foldl_cons, ih]
    cases a <;> cases hs : h.start? <;>
      simp [attach, addAnnotationAt, addModifier, hs, Attachment.start, Leaf.token]

theorem modifier?_foldl : (as.foldl attach h).modifier? =
    h.modifier?.or ((as.filterMap Attachment.modifier?).head?.map (·.start)) := by
  induction as generalizing h with
  | nil => simp
  | cons a as ih =>
    rw [List.foldl_cons, ih]
    cases a with
    | annotationUse => rfl
    | modifier word listed =>
      cases hs : h.modifier? <;> simp [attach, addModifier, Attachment.modifier?, hs]

theorem visibility?_foldl : (as.foldl attach h).visibility? =
    ((as.filterMap Attachment.modifier?).filterMap fun m =>
      (Visibility.ofKeyword? m.text).map (·, m.span)).getLast?.or h.visibility? := by
  induction as generalizing h with
  | nil => simp
  | cons a as ih =>
    rw [List.foldl_cons, ih]
    cases a with
    | annotationUse => rfl
    | modifier word listed =>
      cases hv : Visibility.ofKeyword? word.token.text with
      | none => simp [attach, addModifier, Attachment.modifier?, hv]
      | some v => simp [attach, addModifier, Attachment.modifier?, hv, List.getLast?_cons]

end Header

namespace Scanner

variable (last : Nat) {ts : List Token}

theorem step_attachment (a : Attachment) (header : Header) (h : Starts ts) :
    step last ⟨false, header, a.tokens ++ ts⟩ = (none, ⟨false, header.attach a, ts⟩) := by
  cases a with
  | annotationUse sign name named arguments? =>
    have hrole : role false sign.token
        (name.tokens ++ ((arguments?.map Group.tokens).getD [] ++ ts)) = .annotationUse :=
      role_annotationUse rfl named
    simp only [step, Attachment.tokens, List.cons_append, List.append_assoc, hrole,
      annotationRest_tokens name arguments? h]
    rfl
  | modifier word listed =>
    have hrole : role false word.token ts = .modifier := role_modifier rfl listed
    simp only [step, Attachment.tokens, List.cons_append, List.nil_append, hrole]
    rfl

/-- Annotations and modifiers are read one after the other. -/
theorem runs_attachments (as : List Attachment) (header : Header) (h : Starts ts) :
    Runs last ⟨false, header, as.flatMap Attachment.tokens ++ ts⟩ []
      ⟨false, as.foldl Header.attach header, ts⟩ := by
  induction as generalizing header with
  | nil => exact .refl _
  | cons a as ih =>
    have hstarts : Starts (as.flatMap Attachment.tokens ++ ts) :=
      starts_flatMap (fun b _ => b.starts) h
    rw [List.flatMap_cons, List.append_assoc]
    have hne : a.tokens ++ (as.flatMap Attachment.tokens ++ ts) ≠ [] := by
      cases a <;> exact List.cons_ne_nil _ _
    exact .silent hne (step_attachment last a header hstarts) (ih (header.attach a))

/-- A keyword with what follows it completes a declaration. -/
theorem step_keyword (d : TypeDeclaration) (header : Header) (us : List Token) :
    step last ⟨false, header, d.keyword.tokens ++ d.name.token ::
        (d.header ++ (d.ending.tokens ++ us))⟩ =
      (some {
        name := d.name.text
        kind := d.keyword.kind
        visibility := (header.visibility?.map (·.1)).getD .package
        visibilitySpan? := header.visibility?.map (·.2)
        modifierStart := header.modifier?.getD d.keyword.start
        span := ⟨header.start?.getD d.keyword.start, d.ending.stop⟩
        nameSpan := d.name.token.span
        bodySpan? := d.ending.bodySpan? }, start us) := by
  have hfinish : ∀ kind keyword, finish last header kind keyword
      (d.name.token :: (d.header ++ (d.ending.tokens ++ us))) = (some {
        name := d.name.text
        kind
        visibility := (header.visibility?.map (·.1)).getD .package
        visibilitySpan? := header.visibility?.map (·.2)
        modifierStart := header.modifier?.getD keyword
        span := ⟨header.start?.getD keyword, d.ending.stop⟩
        nameSpan := d.name.token.span
        bodySpan? := d.ending.bodySpan? }, start us) := by
    intro kind keyword
    have hw : d.name.token.kind = .word := rfl
    rw [finish, declaration?, if_pos hw, tailOf_eq d.plain]
    rfl
  cases hk : d.keyword with
  | plain word | interface word | enum word =>
    exact hfinish _ _
  | annotationType sign word =>
    have hrole : role false sign.token (word.token ::
        (d.name.token :: (d.header ++ (d.ending.tokens ++ us)))) = .annotationType :=
      role_annotationType rfl rfl
    simp only [step, Keyword.tokens, List.cons_append, List.nil_append, hrole, List.tail_cons]
    exact hfinish _ _

/-- A declaration is found with all that belongs to it. -/
theorem runs_type (d : TypeDeclaration) (us : List Token) :
    Runs last (start (d.tokens ++ us)) [d.declaration] (start us) := by
  have hattachments := runs_attachments last d.attachments .empty
    (d.keyword.starts_append (d.name.token :: (d.header ++ (d.ending.tokens ++ us))))
  have hkeyword := step_keyword last d (d.attachments.foldl Header.attach .empty) us
  rw [Header.start?_foldl, Header.modifier?_foldl, Header.visibility?_foldl] at hkeyword
  have htokens : d.tokens ++ us = d.attachments.flatMap Attachment.tokens ++
      (d.keyword.tokens ++ d.name.token :: (d.header ++ (d.ending.tokens ++ us))) := by
    simp [TypeDeclaration.tokens]
  rw [htokens]
  refine hattachments.trans (Runs.found ?_ ?_)
  · cases d.keyword <;> exact List.cons_ne_nil _ _
  · rw [hkeyword]
    simp [TypeDeclaration.declaration, TypeDeclaration.level?, TypeDeclaration.modifiers, Header.empty]

theorem runs_types (ds : List TypeDeclaration) :
    Runs last (start (ds.flatMap TypeDeclaration.tokens)) (ds.map TypeDeclaration.declaration)
      (start []) := by
  induction ds with
  | nil => exact .refl _
  | cons d ds ih => exact (runs_type last d _).trans ih

theorem runs_imports (cs : List (Clause "import")) (h : Starts ts) :
    Runs last (start (cs.flatMap Clause.tokens ++ ts)) [] (start ts) := by
  induction cs with
  | nil => exact .refl _
  | cons c cs ih =>
    rw [List.flatMap_cons, List.append_assoc]
    exact (runs_clause last c (.inr rfl) (starts_flatMap (fun c _ => c.starts) h)).trans ih

theorem runs_unit (u : CompilationUnit) :
    Runs last (start u.tokens) u.declarations (start []) := by
  have htypes : Starts (u.types.flatMap TypeDeclaration.tokens) := by
    have := starts_flatMap (fun d (_ : d ∈ u.types) => TypeDeclaration.starts d) Starts.nil
    rwa [List.append_nil] at this
  have himports := runs_imports last u.imports htypes
  have hstarts : Starts (u.imports.flatMap Clause.tokens ++
      u.types.flatMap TypeDeclaration.tokens) := starts_flatMap (fun c _ => c.starts) htypes
  have hpackage : Runs last (start u.tokens) [] (start (u.imports.flatMap Clause.tokens ++
      u.types.flatMap TypeDeclaration.tokens)) := by
    unfold CompilationUnit.tokens
    cases u.package? with
    | none => exact .refl _
    | some p => exact runs_clause last p.toClause (.inl rfl) hstarts
  exact hpackage.trans (himports.trans (runs_types last u.types))

end Scanner

end Source

open Source

/-- **The declarations of a compilation unit** are found in every text whose tokens spell it, in order
and with nothing from inside their bodies. -/
theorem declarations_of_tokens {t : Text} {u : CompilationUnit} (h : tokens t = u.tokens) :
    declarations t = u.declarations := by
  rw [declarations, h, (Scanner.runs_unit _ u).run_eq, Scanner.run_nil rfl, List.append_nil]

theorem declarations_of_tokens_class :
    let t : Text := "package p;\nimport a.B\n@A(x) public class C(int i) \x7b \x7b\x7d \x7d"
    ∃ u : CompilationUnit, tokens t = u.tokens ∧
      u.declarations = [⟨"C", .plain, .pub, some ⟨28, 34⟩, 28, ⟨22, 56⟩, ⟨41, 42⟩, some ⟨50, 56⟩⟩] ∧
      declarations t = u.declarations := by
  intro t
  let arguments : Group .openParen .closeParen :=
    ⟨⟨24, "("⟩, [⟨.word, 25, "x"⟩], .plain (by decide) (by decide) .nil, ⟨26, ")"⟩⟩
  let parameters : Group .openParen .closeParen :=
    ⟨⟨42, "("⟩, [⟨.word, 43, "int"⟩, ⟨.word, 47, "i"⟩],
      .plain (by decide) (by decide) (.plain (by decide) (by decide) .nil), ⟨48, ")"⟩⟩
  let body : Group .openBrace .closeBrace :=
    ⟨⟨50, "\x7b"⟩, [⟨.openBrace, 52, "\x7b"⟩, ⟨.closeBrace, 53, "\x7d"⟩],
      @Balanced.group _ _ ⟨.openBrace, 52, "\x7b"⟩ ⟨.closeBrace, 53, "\x7d"⟩ [] [] rfl .nil rfl .nil,
      ⟨55, "\x7d"⟩⟩
  let u : CompilationUnit :=
    { package? := some ⟨⟨⟨0⟩, none, ⟨⟨8, "p"⟩, []⟩, by decide, none, some ⟨9, ";"⟩⟩, rfl, rfl⟩
      imports := [⟨⟨11⟩, none, ⟨⟨18, "a"⟩, [⟨⟨19, "."⟩, ⟨20, "B"⟩⟩]⟩, by decide, none, none⟩]
      types := [
        { attachments := [.annotationUse ⟨22, "@"⟩ ⟨⟨23, "A"⟩, []⟩ (by decide) (some arguments),
            .modifier ⟨28, "public"⟩ (by decide)]
          keyword := .plain ⟨35⟩
          name := ⟨41, "C"⟩
          header := parameters.tokens ++ []
          plain := .group parameters .nil
          ending := .body body }] }
  have hu : tokens t = u.tokens := by decide +kernel
  exact ⟨u, hu, by decide +kernel, declarations_of_tokens hu⟩

end QuickFix
