import QuickFix.Proofs.Source.ClassEdits

/-!
# Units and their levels

A text reads as a compilation unit (`CompilationUnit.Reads`) if its tokens are those of the unit but
for where they stand. Such a text has the declarations of the unit and its package
(`Reads.map_outline`, `Reads.packageOf?`), so that the edit of a text can be followed on the unit: a
level is a modifier more, another one or one less among the attachments of a type.
-/

namespace QuickFix

open Source Source.Scanner

namespace Source

/-! ## The level of a type -/

/-- The level that a modifier names. -/
def Attachment.level? (a : Attachment) : Option (Visibility × Span) :=
  a.modifier?.bind fun m => (Visibility.ofKeyword? m.text).map (·, m.span)

/-- The level that attachments give: the last one that they name, or the package's. -/
def levelOf (as : List Attachment) : Visibility :=
  ((as.filterMap Attachment.level?).getLast?.map (·.1)).getD .package

namespace TypeDeclaration

/-- At most one of the modifiers names a level. -/
def HasOneLevel (d : TypeDeclaration) : Prop := (d.attachments.filterMap Attachment.level?).length ≤ 1

/-- The tokens from the keyword on. -/
def stem (d : TypeDeclaration) : List Token :=
  d.keyword.tokens ++ d.name.token :: (d.header ++ d.ending.tokens)

theorem starts_stem (d : TypeDeclaration) (us : List Token) : Starts (d.stem ++ us) := by
  unfold stem
  rw [List.append_assoc]
  exact d.keyword.starts_append _

theorem visibility_declaration (d : TypeDeclaration) {v : Visibility} {span : Span}
    (h : d.level? = some (v, span)) : d.declaration.visibility = v := by
  simp only [declaration, h, Option.map_some, Option.getD_some]

theorem visibilitySpan?_declaration (d : TypeDeclaration) {v : Visibility} {span : Span}
    (h : d.level? = some (v, span)) : d.declaration.visibilitySpan? = some span := by
  simp only [declaration, h, Option.map_some]

theorem level?_eq (d : TypeDeclaration) :
    d.level? = (d.attachments.filterMap Attachment.level?).getLast? := by
  rw [level?, modifiers, List.filterMap_filterMap]
  rfl

/-- The modifier that gives the level, and no other names one. -/
theorem HasOneLevel.exists_modifier {d : TypeDeclaration} (h : d.HasOneLevel) {v : Visibility}
    {span : Span} (hl : d.level? = some (v, span)) :
    ∃ as word listed bs, d.attachments = as ++ .modifier word listed :: bs ∧
      v.keyword? = some word.text ∧ span = word.token.span ∧
      as.filterMap Attachment.level? = [] ∧ bs.filterMap Attachment.level? = [] := by
  rw [level?_eq] at hl
  obtain ⟨ls, hls⟩ := List.getLast?_eq_some_iff.1 hl
  have hnil : ls = [] := by
    have hlen : (d.attachments.filterMap Attachment.level?).length ≤ 1 := h
    rw [hls, List.length_append] at hlen
    exact List.eq_nil_of_length_eq_zero (Nat.le_zero.1 (Nat.le_of_succ_le_succ hlen))
  rw [hnil, List.nil_append] at hls
  obtain ⟨as, a, bs, hsplit, has, ha, hbs⟩ := List.filterMap_eq_cons_iff.1 hls
  cases a with
  | annotationUse => cases ha
  | modifier word listed =>
    obtain ⟨v', hv', he⟩ := Option.map_eq_some_iff.1 ha
    obtain ⟨rfl, rfl⟩ := Prod.mk.inj he
    exact ⟨as, word, listed, bs, hsplit, Visibility.ofKeyword?_eq_some_iff.1 hv', rfl,
      List.filterMap_eq_nil_iff.2 has, hbs⟩

end TypeDeclaration

/-! ## Reading a unit -/

theorem Token.Rel.self (k : Token) : Token.Rel (fun _ _ => True) k k :=
  ⟨rfl, .inl rfl, trivial, trivial⟩

theorem forall₂_self (ks : List Token) : List.Forall₂ (Token.Rel fun _ _ => True) ks ks :=
  List.forall₂_same.2 fun k _ => .self k

/-- The tokens of the text are those of the unit, wherever they stand. -/
def CompilationUnit.Reads (u : CompilationUnit) (t : Text) : Prop :=
  List.Forall₂ (Token.Rel fun _ _ => True) u.tokens (Source.tokens t)

variable {u : CompilationUnit} {t : Text}

theorem reads_of_eq (h : tokens t = u.tokens) : u.Reads t := by
  rw [CompilationUnit.Reads, h]
  exact forall₂_self _

theorem CompilationUnit.Reads.map_outline (h : u.Reads t) :
    (QuickFix.declarations t).map Declaration.outline =
      u.declarations.map Declaration.outline := by
  have hrun : List.Forall₂ (Declaration.Rel fun _ _ => True) ((start u.tokens).run 0)
      (QuickFix.declarations t) := run_rel trivial (.start h)
  rw [(runs_unit 0 u).run_eq, run_nil rfl, List.append_nil] at hrun
  exact (Declaration.map_outline_eq hrun).symm

theorem declarations_eq_of_tokens (h : tokens t = u.tokens) :
    declarations t = u.types.map TypeDeclaration.declaration := by
  rw [declarations, h, (runs_unit _ u).run_eq, run_nil rfl, List.append_nil]
  rfl

/-- A declaration of the text is that of a type of the unit. -/
theorem exists_type {i : Nat} {d : Declaration} (hu : tokens t = u.tokens)
    (hd : (declarations t)[i]? = some d) :
    ∃ ds T es, u.types = ds ++ T :: es ∧ ds.length = i ∧ T.declaration = d := by
  rw [declarations_eq_of_tokens hu, List.getElem?_map] at hd
  obtain ⟨T, hT, rfl⟩ := Option.map_eq_some_iff.1 hd
  obtain ⟨hi, rfl⟩ := List.getElem?_eq_some_iff.1 hT
  exact ⟨u.types.take i, _, u.types.drop (i + 1), by simp, by simp [Nat.le_of_lt hi], rfl⟩

section

variable {ds es : List TypeDeclaration} {T : TypeDeclaration}

/-- The tokens of a unit around the attachments of one of its types. -/
theorem tokens_of_types (h : u.types = ds ++ T :: es) : u.tokens =
    { u with types := ds }.tokens ++ (T.attachments.flatMap Attachment.tokens ++
      (T.stem ++ es.flatMap TypeDeclaration.tokens)) := by
  simp [CompilationUnit.tokens, TypeDeclaration.tokens, TypeDeclaration.stem, h]

theorem tokens_with_attachments (u : CompilationUnit) (ds es : List TypeDeclaration)
    (T : TypeDeclaration) (as : List Attachment) :
    { u with types := ds ++ { T with attachments := as } :: es }.tokens =
      { u with types := ds }.tokens ++ (as.flatMap Attachment.tokens ++
        (T.stem ++ es.flatMap TypeDeclaration.tokens)) :=
  tokens_of_types (u := { u with types := ds ++ { T with attachments := as } :: es }) rfl

/-- Other attachments of a type change its level and nothing else that the unit declares. -/
theorem map_outline_of_types (h : u.types = ds ++ T :: es) (as : List Attachment) :
    { u with types := ds ++ { T with attachments := as } :: es }.declarations.map
        Declaration.outline =
      (u.declarations.map Declaration.outline).set ds.length
        (T.name.text, T.keyword.kind, levelOf as) := by
  have hlevel : ({ T with attachments := as } : TypeDeclaration).declaration.outline =
      (T.name.text, T.keyword.kind, levelOf as) := by
    rw [levelOf, ← TypeDeclaration.level?_eq { T with attachments := as }]
    rfl
  have hlength : ds.length = (ds.map fun T => T.declaration.outline).length := by simp
  simp only [CompilationUnit.declarations, h, List.map_map, List.map_append, List.map_cons,
    Function.comp_def, hlevel]
  rw [hlength, List.set_append_right _ _ (Nat.le_refl _), Nat.sub_self, List.set_cons_zero]

end

/-! ## The package of a unit -/

theorem packageStatement?_of_head {ts : List Token}
    (h : ∀ k ∈ ts.head?, k.kind ≠ .at ∧ k.isWord "package" = false) :
    packageStatement? ts = none := by
  cases ts with
  | nil => rw [packageStatement?]
  | cons k ts =>
    obtain ⟨hat, hword⟩ := h k rfl
    rw [packageStatement?, if_neg hat, if_neg (by rw [hword]; exact Bool.false_ne_true)]

theorem packageStatement?_stem (d : TypeDeclaration) (us : List Token)
    (hk : d.keyword.kind ≠ .annotationType) : packageStatement? (d.stem ++ us) = none := by
  refine packageStatement?_of_head fun k hm => ?_
  unfold TypeDeclaration.stem at hm
  cases hkey : d.keyword with
  | annotationType sign word => exact absurd (congrArg Keyword.kind hkey) hk
  | plain | interface | enum =>
    rw [hkey] at hm
    obtain rfl := Option.some.inj hm
    exact ⟨nofun, rfl⟩

/-- Annotations and modifiers are no package statement. -/
theorem packageStatement?_attachments (as : List Attachment) {us : List Token} (hs : Starts us)
    (h : packageStatement? us = none) :
    packageStatement? (as.flatMap Attachment.tokens ++ us) = none := by
  induction as with
  | nil => exact h
  | cons a as ih =>
    rw [List.flatMap_cons, List.append_assoc]
    cases a with
    | annotationUse sign name named arguments? =>
      have hrest : Starts (as.flatMap Attachment.tokens ++ us) :=
        starts_flatMap (fun a _ => a.starts) hs
      simp only [Attachment.tokens, List.cons_append, List.append_assoc]
      rw [packageStatement?_at _ rfl, annotationRest_tokens name arguments? hrest, ih]
    | modifier word listed =>
      refine packageStatement?_of_head fun k hm => ?_
      obtain rfl := Option.some.inj hm
      have hne : ∀ w ∈ modifiers, decide (w = "package") = false := by decide
      have hat : word.token.kind ≠ .at := by simp [Leaf.token]
      exact ⟨hat, Bool.and_eq_false_imp.2 fun _ => hne _ listed⟩

theorem PackageClause.packageStatement?_eq (c : PackageClause) {us : List Token} (hs : Starts us) :
    (packageStatement? (c.tokens ++ us)).map (·.name) = PackageName.parse? c.name.text := by
  have htokens : c.tokens ++ us = c.keyword.token ::
      (c.name.tokens ++ ((c.semicolon?.map Leaf.token).toList ++ us)) := by
    rw [Clause.tokens, Clause.tail, c.static_eq, c.star_eq]
    simp
  have hends : EndsName ((c.semicolon?.map Leaf.token).toList ++ us) := by
    cases c.semicolon? with
    | none => exact hs.endsName
    | some sign =>
      intro dot word vs he hdot
      obtain ⟨rfl, -⟩ := List.cons.inj he
      cases hdot
  obtain ⟨l, hname⟩ := c.name.dottedName?_tokens hends
  rw [htokens, packageStatement?_word _ rfl]
  unfold packageBehind?
  rw [hname]
  cases hp : PackageName.parse? c.name.text <;> simp [hp]

/-- **The package of a unit** that does not start with an annotation type is the one of its
clause. -/
theorem CompilationUnit.Reads.packageOf? (h : u.Reads t)
    (hk : ∀ d ∈ u.types.head?, d.keyword.kind ≠ .annotationType) :
    (QuickFix.packageOf? t).map (·.name) = u.package?.bind fun c => PackageName.parse? c.name.text := by
  have hread : (QuickFix.packageOf? t).map (·.name) =
      (packageStatement? u.tokens).map (·.name) := (packageStatement?_rel h).symm
  rw [hread]
  unfold CompilationUnit.tokens
  have htypes : Starts (u.types.flatMap TypeDeclaration.tokens) := by
    have := starts_flatMap (fun d (_ : d ∈ u.types) => TypeDeclaration.starts d) Starts.nil
    rwa [List.append_nil] at this
  cases hp : u.package? with
  | some c =>
    have hstarts : Starts (u.imports.flatMap Clause.tokens ++
      u.types.flatMap TypeDeclaration.tokens) := starts_flatMap (fun c _ => c.starts) htypes
    exact c.packageStatement?_eq hstarts
  | none =>
    rw [Option.map_none, Option.getD_none, List.nil_append]
    have hnone : packageStatement? (u.imports.flatMap Clause.tokens ++
        u.types.flatMap TypeDeclaration.tokens) = none := by
      cases u.imports with
      | cons c cs => exact packageStatement?_of_head fun k hm => by cases hm; exact ⟨nofun, rfl⟩
      | nil =>
        rw [List.flatMap_nil, List.nil_append]
        cases hd : u.types with
        | nil => rw [List.flatMap_nil, packageStatement?]
        | cons d ds =>
          rw [List.flatMap_cons]
          have hstem := packageStatement?_stem d (ds.flatMap TypeDeclaration.tokens)
            (hk d (by rw [hd]; rfl))
          have hall := packageStatement?_attachments d.attachments (d.starts_stem _) hstem
          rwa [← List.append_assoc] at hall
    rw [hnone]
    rfl

end Source

end QuickFix
