import QuickFix.Proofs.Source.Constructor
import QuickFix.Proofs.Source.PackageStatement

/-!
# What the edits of a class leave

Both edits of a declaration apply to the text in which it was found. The one that gives it a level
leaves all declarations but for this level (`exists_visibilityEdit`). The one that puts in a
constructor leaves all of them, and the name in the package statement too
(`exists_constructorEdit_of_mem`), since what it puts in is balanced: `packageStatement?_put` follows
the annotations before the statement, which may reach past the place.
-/

namespace QuickFix

open Source

namespace Source

/-! ## The package statement before a brace -/

/-- A bracket that is not closed in `a` is looked for behind it. -/
theorem closing?_append_of_none {o c : TokenKind} {n : Nat} {a : List Token}
    (h : closing? o c n a = none) : ∃ m, ∀ y, closing? o c n (a ++ y) = closing? o c m y := by
  induction a generalizing n with
  | nil => exact ⟨n, fun y => rfl⟩
  | cons t a ih =>
    by_cases ho : t.kind = o
    · rw [closing?_opening ho] at h
      obtain ⟨m, hm⟩ := ih h
      refine ⟨m, fun y => ?_⟩
      rw [List.cons_append, closing?_opening ho, hm]
    by_cases hc : t.kind = c
    · cases n with
      | zero =>
        rw [closing?, if_neg ho, if_pos hc] at h
        cases h
      | succ n =>
        rw [closing?, if_neg ho, if_pos hc] at h
        obtain ⟨m, hm⟩ := ih h
        refine ⟨m, fun y => ?_⟩
        rw [List.cons_append, closing?, if_neg ho, if_pos hc, hm]
    · rw [closing?_other ho hc] at h
      obtain ⟨m, hm⟩ := ih h
      refine ⟨m, fun y => ?_⟩
      rw [List.cons_append, closing?_other ho hc, hm]

section

variable {brace : Token} {ks zs us : List Token} (hbrace : brace.kind = .openBrace)
  (hks : Balanced .openParen .closeParen ks) (hus : List.Forall₂ (Token.Rel fun _ _ => True) zs us)
include hbrace

theorem noWord_brace (y : List Token) : NoWord (brace :: y) := by
  intro k hk
  obtain rfl := Option.some.inj hk
  rw [hbrace]
  decide

/-- A name ends before a brace. -/
theorem dottedName?_brace (xs y : List Token) : dottedName? (xs ++ brace :: y) =
    (dottedName? xs).map fun p => (p.1, p.2.1, p.2.2 ++ brace :: y) := by
  have hdot : ∀ k ∈ (brace :: y).head?, k.kind ≠ .dot := by
    intro k hk
    obtain rfl := Option.some.inj hk
    rw [hbrace]
    decide
  cases h : dottedName? xs with
  | none =>
    exact dottedName?_change_none (x := []) (by rw [List.append_nil, h])
      (.inl (noWord_brace hbrace y))
  | some p =>
    obtain ⟨n, l, r⟩ := p
    exact dottedName?_change (x := []) (by rw [List.append_nil, List.append_nil, h]) hdot
      (.inl (noWord_brace hbrace y))

include hks hus

/-- An annotation ends before the brace, or it reaches past the tokens that are put in. -/
theorem annotationRest_put (xs : List Token) :
    (∃ ys, ys.length ≤ xs.length ∧ annotationRest (xs ++ brace :: zs) = ys ++ brace :: zs ∧
      annotationRest (xs ++ brace :: (ks ++ us)) = ys ++ brace :: (ks ++ us)) ∨
    List.Forall₂ (Token.Rel fun _ _ => True) (annotationRest (xs ++ brace :: zs))
      (annotationRest (xs ++ brace :: (ks ++ us))) := by
  have hlength : ∀ {ys : List Token}, annotationRest (xs ++ brace :: zs) = ys ++ brace :: zs →
      ys.length ≤ xs.length := by
    intro ys h
    have := (annotationRest_suffix (xs ++ brace :: zs)).length_le
    rw [h, List.length_append, List.length_append] at this
    omega
  suffices h : (∃ ys, ∀ y, annotationRest (xs ++ brace :: y) = ys ++ brace :: y) ∨ _ from
    h.imp_left fun ⟨ys, hys⟩ => ⟨ys, hlength (hys zs), hys zs, hys _⟩
  unfold annotationRest
  simp only [dottedName?_brace hbrace]
  match hn : dottedName? xs with
  | none => exact .inl ⟨xs, fun y => rfl⟩
  | some (n, l, []) =>
    refine .inl ⟨[], fun y => ?_⟩
    have hne : brace.kind ≠ .openParen := by rw [hbrace]; decide
    simp only [Option.map_some, List.nil_append, if_neg hne]
  | some (n, l, t :: r) =>
    simp only [Option.map_some, List.cons_append]
    by_cases ht : t.kind = .openParen
    · simp only [if_pos ht]
      cases hc : closing? .openParen .closeParen 0 r with
      | some p =>
        obtain ⟨k, r'⟩ := p
        refine .inl ⟨r', fun y => ?_⟩
        have hself : closing? .openParen .closeParen 0 (r ++ []) = some (k, r' ++ []) := by
          rw [List.append_nil, List.append_nil, hc]
        rw [closing?_change (brace :: y) hself]
        rfl
      | none =>
        obtain ⟨m, hm⟩ := closing?_append_of_none hc
        refine .inr ?_
        have ho : brace.kind ≠ .openParen := by rw [hbrace]; decide
        have hc : brace.kind ≠ .closeParen := by rw [hbrace]; decide
        rw [hm, hm, closing?_other ho hc, closing?_other ho hc, hks.closing?_append (by decide)]
        exact afterClosing_rel hus
    · simp only [if_neg ht]
      exact .inl ⟨t :: r, fun y => rfl⟩

/-- **Balanced tokens behind a brace** leave the name in the package statement. -/
theorem packageStatement?_put (xs : List Token) :
    (packageStatement? (xs ++ brace :: (ks ++ us))).map (·.name) =
      (packageStatement? (xs ++ brace :: zs)).map (·.name) := by
  generalize hn : xs.length = n
  induction n using Nat.strongRecOn generalizing xs with
  | ind n ih =>
    cases xs with
    | nil =>
      have hat : brace.kind ≠ .at := by rw [hbrace]; decide
      have hword : brace.isWord "package" ≠ true := by simp [Token.isWord, hbrace]
      simp only [List.nil_append, packageStatement?, if_neg hat, if_neg hword]
    | cons t xs =>
      rw [List.cons_append, List.cons_append]
      by_cases hat : t.kind = .at
      · rw [packageStatement?_at _ hat, packageStatement?_at _ hat]
        rcases annotationRest_put hbrace hks hus xs with ⟨ys, hlen, h, h'⟩ | hrel
        · rw [h, h']
          rw [List.length_cons] at hn
          exact ih ys.length (by omega) ys rfl
        · exact (packageStatement?_rel hrel).symm
      by_cases hword : t.isWord "package" = true
      · rw [packageStatement?_word _ hword, packageStatement?_word _ hword]
        unfold packageBehind?
        rw [dottedName?_brace hbrace, dottedName?_brace hbrace]
        cases dottedName? xs with
        | none => rfl
        | some p => cases hp : PackageName.parse? p.1 <;> simp [hp]
      · rw [packageStatement?, if_neg hat, if_neg hword, packageStatement?, if_neg hat,
          if_neg hword]

end

/-- What is read of a constructor is balanced in its parentheses. -/
theorem balanced_parens_of_lexemes {name : Text} {ks : List Token}
    (h : ks.map Token.lexeme = constructorLexemes name) : Balanced .openParen .closeParen ks := by
  obtain ⟨level, word, openParen, closeParen, openBrace, closeBrace, rfl⟩ := exists_of_lexemes h
  have hbraces : Balanced .openParen .closeParen [openBrace.token, closeBrace.token] :=
    .plain nofun nofun (.plain nofun nofun .nil)
  have hparens : Balanced .openParen .closeParen
      (openParen.token :: ([] ++ closeParen.token :: [openBrace.token, closeBrace.token])) :=
    .group rfl .nil rfl hbraces
  exact .plain nofun nofun (.plain nofun nofun hparens)

end Source

/-! ## The edits -/

namespace Declaration

variable {t : Text} {d : Declaration}

/-- **The edit that gives a class, an interface or an enum another level** than the package's applies,
and the text has the same declarations but for this level. -/
theorem exists_visibilityEdit {i : Nat} {v : Visibility} (hd : (declarations t)[i]? = some d)
    (hk : d.kind ≠ .annotationType) (hv : v ≠ .package) (hne : d.visibility ≠ v) :
    ∃ e r, d.visibilityEdit v t = .ok (some e) ∧ e.apply t = .ok r ∧
      (declarations r).map outline = ((declarations t).map outline).set i (d.name, d.kind, v) := by
  obtain ⟨w, hw⟩ := Visibility.exists_keyword hv
  obtain ⟨ds, rfl, p, hp | hp⟩ := exists_approach hd
  · have hword := hp.word hk
    obtain ⟨e, he, hr⟩ := hp.edit hne hw
    exact ⟨e, _, he, hr, (p.put_keyword hp.onward (p.before_ne_word hword)
      (p.pending?_eq_none hword) hw).1⟩
  · obtain ⟨e, he, hr⟩ := hp.edit hne hw
    exact ⟨e, _, he, hr, (p.replace_keyword hp.token hp.onward hw).1⟩

/-- The name of a declaration is a word of its text. -/
theorem isIdentifier_name (hd : d ∈ declarations t) : Text.isIdentifier d.name = true := by
  obtain ⟨_, _, _, _, _, hus, hdecl⟩ := exists_declaration?_of_mem hd
  obtain ⟨name, us, rfl, hname, -, hfound⟩ := declaration?_eq_some hdecl
  have hmem : name ∈ tokens t := hus.subset List.mem_cons_self
  obtain ⟨z, hz⟩ := endsBefore_of_mem_tokens hmem
  rw [hname] at hz
  rw [hfound]
  exact (word_endsBefore_iff.1 hz).1

/-- The edit of a declaration with a body puts a constructor of its name behind the brace. -/
theorem exists_tokens_of_constructorEdit {xs zs : List Token} {brace k : Token} {body : Span}
    (hd : d ∈ declarations t) (hb : d.bodySpan? = some body)
    (ht : tokens t = xs ++ brace :: zs) (hbrace : brace.kind = .openBrace)
    (hstart : brace.start = body.start) (hk : k ∈ tokens t) (hspan : k.start = d.span.start) :
    ∃ e r ks us, d.constructorEdit t = .ok (some e) ∧ e.apply t = .ok r ∧
      tokens r = xs ++ brace :: (ks ++ us) ∧ ks.map Token.lexeme = constructorLexemes d.name ∧
      List.Forall₂ (Token.Rel fun _ _ => True) zs us := by
  have htext : brace.text = ['\x7b'] :=
    text_of_openBrace (ht ▸ List.mem_append_right xs List.mem_cons_self) hbrace
  obtain ⟨a, b, htab, rfl, hbstart, hpieces, -⟩ := exists_split_of_tokens ht
  obtain ⟨before, after, hcut⟩ := exists_cutAt_of_mem hk
  rw [hspan] at hcut
  rw [htext, List.singleton_append] at htab
  subst htab
  obtain ⟨nl, b, lead, rfl, hnl, hlead, he⟩ :=
    exists_constructorEdit hb hcut rfl (hstart.symm.trans hbstart)
  have hindent : ∀ c ∈ lastIndent before ++ "    ", Text.isAsciiBlank c = true := by
    intro c hc
    rcases List.mem_append.1 hc with hc | hc
    · exact isAsciiBlank_of_mem_lastIndent hc
    · exact List.all_eq_true.1 (by decide) c hc
  obtain ⟨hnew, hlex⟩ := pieces_constructorText (isIdentifier_name hd) hindent
    (lineEnd_lineEnds (a ++ '\x7b' :: (nl ++ b))) hlead
  generalize lead ++ constructorText d.name (lastIndent before ++ "    ")
    (lineEnd (a ++ '\x7b' :: (nl ++ b))) = new at *
  rw [hbrace, htext] at hpieces
  obtain ⟨ys, hys, hr⟩ := tokens_put_behind_brace hpieces hnl hnew
  rw [ht] at hys
  obtain ⟨rfl, rfl⟩ := List.cons.inj (List.append_cancel_left hys)
  have happly := Edit.apply_between (a ++ '\x7b' :: nl) [] new b
  rw [List.append_assoc, List.append_assoc, List.nil_append] at happly
  refine ⟨_, _, _, _, he, happly, hr, ?_, forall₂_shift (Text.bytes new) zs⟩
  rw [map_lexeme_place, hlex]

/-- **The edit that puts a constructor into a body** applies, and the text has the same declarations
and the same name in its package statement. -/
theorem exists_constructorEdit_of_mem {body : Span} (hd : d ∈ declarations t)
    (hb : d.bodySpan? = some body) : ∃ e r, d.constructorEdit t = .ok (some e) ∧ e.apply t = .ok r ∧
      (declarations r).map outline = (declarations t).map outline ∧
      (packageOf? r).map (·.name) = (packageOf? t).map (·.name) := by
  obtain ⟨xs, brace, zs, ht, hbrace, hstart, -, ⟨k, hk, hspan⟩, hput⟩ := exists_body_of_mem hd hb
  obtain ⟨e, r, ks, us, he, hr, htr, hlex, hus⟩ :=
    exists_tokens_of_constructorEdit hd hb ht hbrace hstart hk hspan
  refine ⟨e, r, he, hr, hput r ks us htr (balanced_of_lexemes hlex) hus, ?_⟩
  rw [packageOf?, packageOf?, ht, htr]
  exact packageStatement?_put hbrace (balanced_parens_of_lexemes hlex) hus xs

end Declaration

end QuickFix
