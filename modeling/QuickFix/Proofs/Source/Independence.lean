import QuickFix.Proofs.Source.ClassEdits
import QuickFix.Proofs.Text.Places

/-!
# The level and the constructor of a class

The edit that gives a declaration a level and the one that puts a constructor into its body each
compute offsets, an indentation and a line end from the text at hand. Neither changes what the other
reads, so they come to one text in either order: `Declaration.edits_commute`.

* `Relevel`: the edit of the level replaces a stretch before the body by a text with no line end in it,
  and leaves where the declaration starts;
* `constructorEdit_apply`: what the constructor makes of the body depends on the text behind the brace,
  on what stands before the declaration and on the line end of the text, and on nothing else.
-/

namespace QuickFix

open Source Source.Scanner

/-! ## The line end of a text -/

namespace Text

theorem contains_iff {t p : Text} : contains t p = true ↔ p <:+: t := by
  rw [contains, Option.isSome_iff_ne_none, ne_eq, around?_eq_none_iff, not_not]

theorem crlf_infix_append_iff {x y : Text} (h : '\r' ∉ x.getLast? ∨ '\n' ∉ y.head?) :
    ['\r', '\n'] <:+: x ++ y ↔ ['\r', '\n'] <:+: x ∨ ['\r', '\n'] <:+: y := by
  induction x with
  | nil => simp
  | cons c x ih =>
    rw [List.cons_append, List.infix_cons_iff]
    cases x with
    | nil =>
      have hseam : ¬['\r', '\n'] <+: c :: y := by
        rintro ⟨z, hz⟩
        obtain ⟨rfl, rfl⟩ := List.cons.inj hz
        simp at h
      simp [hseam, List.infix_cons_iff]
    | cons c' x =>
      have hstart : ['\r', '\n'] <+: c :: (c' :: x ++ y) ↔ ['\r', '\n'] <+: c :: c' :: x := by
        simp [List.cons_prefix_cons]
      rw [List.getLast?_cons_cons] at h
      rw [hstart, ih h, List.infix_cons_iff (a := c), or_assoc]

end Text

namespace Source

theorem newline_not_mem_head? {u : Text} (h : Text.isIdentifier u = true) (z : Text) :
    '\n' ∉ (u ++ z).head? := by
  obtain ⟨x, u, rfl, hx, -⟩ := exists_of_isIdentifier h
  intro hn
  obtain rfl : x = '\n' := Option.some.inj hn
  exact absurd hx (by decide)

/-- A text without line ends, neither in it nor at its seams, has no say in the line end. -/
theorem lineEnd_replace {a u w z : Text} (hu : '\r' ∉ u) (hw : '\r' ∉ w) (hu' : '\n' ∉ (u ++ z).head?)
    (hw' : '\n' ∉ (w ++ z).head?) : lineEnd (a ++ (w ++ z)) = lineEnd (a ++ (u ++ z)) := by
  have hsplit : ∀ {y : Text}, '\r' ∉ y → '\n' ∉ (y ++ z).head? →
      (Text.contains (a ++ (y ++ z)) ['\r', '\n'] = true ↔
        ['\r', '\n'] <:+: a ∨ ['\r', '\n'] <:+: z) := by
    intro y hy hz
    have hnone : ¬['\r', '\n'] <:+: y := fun h => hy (h.subset (by simp))
    rw [Text.contains_iff, Text.crlf_infix_append_iff (.inr hz),
      Text.crlf_infix_append_iff (.inl fun h => hy (List.mem_of_getLast? h))]
    simp [hnone]
  unfold lineEnd
  simp only [hsplit hu hu', hsplit hw hw']

/-- A cut is not changed behind it. -/
theorem exists_cutAt_append {n : Nat} {a y before after : Text}
    (h : cutAt n (a ++ y) = .ok (before, after)) (hn : n ≤ Text.bytes a) (z : Text) :
    ∃ after', cutAt n (a ++ z) = .ok (before, after') := by
  unfold cutAt at h ⊢
  split at h
  · rename_i hcut
    cases h
    obtain ⟨hsplit, rfl⟩ := Text.cutBytes?_eq_some_iff.1 hcut
    obtain ⟨u, rfl, -⟩ := Text.exists_of_bytes_le hsplit.symm hn
    rw [List.append_assoc, Text.cutBytes?_eq_some_iff.2 ⟨rfl, rfl⟩]
    exact ⟨u ++ z, rfl⟩
  · cases h

end Source

/-! ## The text with the constructor -/

namespace Declaration

/-- What a constructor of the class `name` makes of the text `b` behind the brace of the body;
`before` is what stands before the declaration. -/
def withConstructor (name before newline b : Text) : Text :=
  newline ++ (constructorText name (lastIndent before ++ "    ") newline ++
    (Text.after? newline b).getD b)

theorem constructorEdit_apply {d : Declaration} {t before after a b : Text} {body : Span}
    (hb : d.bodySpan? = some body) (hcut : cutAt d.span.start t = .ok (before, after))
    (ht : t = a ++ '\x7b' :: b) (ha : body.start = Text.bytes a) :
    ∃ e, d.constructorEdit t = .ok (some e) ∧
      e.apply t = .ok (a ++ '\x7b' :: withConstructor d.name before (lineEnd t) b) := by
  obtain ⟨nl, lead, hends, hb', he⟩ := constructorEdit_eq hb hcut ht ha
  refine ⟨_, he, ?_⟩
  have hinsert := Edit.insert_apply (a ++ '\x7b' :: nl)
    (lead ++ constructorText d.name (lastIndent before ++ "    ") (lineEnd t))
    ((Text.after? (lineEnd t) b).getD b)
  have htext : t = a ++ '\x7b' :: nl ++ (Text.after? (lineEnd t) b).getD b := by
    rw [List.append_assoc, List.cons_append, ← hb', ← ht]
  rw [← htext] at hinsert
  rw [hinsert, withConstructor]
  simp [← hends]

/-! ## An edit of the declaration at an index -/

/-- The text after an edit of its declaration number `i`, if there is one and the edit applies to the
text; no edit leaves the text. -/
def editAt? (i : Nat) (edit : Declaration → Text → Except StaleDeclaration (Option Edit))
    (t : Text) : Option Text :=
  match (declarations t)[i]? with
  | none => none
  | some d =>
    match edit d t with
    | .error _ => none
    | .ok none => some t
    | .ok (some e) => (e.apply t).toOption

variable {edit : Declaration → Text → Except StaleDeclaration (Option Edit)} {t r : Text} {i : Nat}
  {d d' : Declaration} {e : Edit} {body : Span} {v : Visibility}

theorem editAt?_of_none (hd : (declarations t)[i]? = some d) (he : edit d t = .ok none) :
    editAt? i edit t = some t := by
  simp only [editAt?, hd, he]

theorem editAt?_of_some (hd : (declarations t)[i]? = some d) (he : edit d t = .ok (some e))
    (hr : e.apply t = .ok r) : editAt? i edit t = some r := by
  simp only [editAt?, hd, he, hr]
  rfl

/-- A level that is not the package's is given without a look at the text. -/
theorem visibilityEdit_congr (h : d.SameHead d') (hv : v ≠ .package) (t t' : Text) :
    d'.visibilityEdit v t' = d.visibilityEdit v t := by
  have hlevel : d'.visibility = d.visibility := congrArg (·.2.2) h.outline
  obtain ⟨w, hw⟩ := Visibility.exists_keyword hv
  unfold visibilityEdit
  rw [hlevel, h.visibilitySpan?, h.modifierStart, hw]
  cases d.visibilitySpan? <;> rfl

/-- The constructor of a declaration with a body: where the body starts, the text then, and the
declaration found again in it. -/
theorem exists_editAt?_constructorEdit (hd : (declarations t)[i]? = some d)
    (hb : d.bodySpan? = some body) :
    ∃ a b before after, t = a ++ '\x7b' :: b ∧ body.start = Text.bytes a ∧
      cutAt d.span.start t = .ok (before, after) ∧
      editAt? i constructorEdit t =
        some (a ++ '\x7b' :: withConstructor d.name before (lineEnd t) b) ∧
      ∃ d', (declarations (a ++ '\x7b' :: withConstructor d.name before (lineEnd t) b))[i]? =
        some d' ∧ d.SameHead d' := by
  obtain ⟨xs, brace, zs, htok, hbrace, hstart, -, ⟨k, hk, hspan⟩, hput⟩ :=
    exists_body_of_getElem? hd hb
  obtain ⟨before, after, hcut⟩ := exists_cutAt_of_mem hk
  obtain ⟨a, b, ht, -, hbstart, -⟩ := exists_split_of_tokens htok
  rw [text_of_openBrace (htok ▸ List.mem_append_right xs List.mem_cons_self) hbrace] at ht
  rw [hspan] at hcut
  have ha : body.start = Text.bytes a := hstart.symm.trans hbstart
  obtain ⟨e, he, hr⟩ := constructorEdit_apply hb hcut ht ha
  obtain ⟨e', r, ks, us, he', hr', htr, hlex, hus⟩ :=
    exists_tokens_of_constructorEdit (List.mem_of_getElem? hd) hb htok hbrace hstart hk hspan
  obtain rfl : e = e' := by simpa [he] using he'
  obtain rfl := Except.ok.inj (hr.symm.trans hr')
  exact ⟨a, b, before, after, ht, ha, hcut, editAt?_of_some hd he hr,
    (hput _ ks us htr (balanced_of_lexemes hlex) hus).2⟩

end Declaration

/-! ## The level, apart from the body -/

namespace Source.Approach

variable {t : Text} {ds : List Declaration} {d : Declaration} {body : Span} {v : Visibility}
  {w : Text}

theorem span_start (p : Approach t ds d) :
    d.span.start = p.here.header.start?.getD p.token.start := by
  rcases p.onward_eq with hon | ⟨hon, hrole⟩
  · have hleads := p.leads
    rw [hon] at hleads
    exact hleads.start_eq p.rest_eq p.found
  · have hleads : Leads p.here (p.token :: p.plain) p.keyword :=
      .modifier p.rest_eq hrole (hon ▸ p.leads)
    exact hleads.start_eq p.rest_eq p.found

/-- The declaration does not start behind the place. -/
theorem start_le (p : Approach t ds d) : d.span.start ≤ Text.bytes p.before := by
  rw [p.span_start]
  cases hs : p.here.header.start? with
  | none => exact Nat.le_of_eq p.start_eq
  | some n =>
    obtain ⟨pre, hpre, hheader⟩ := p.runs.exists_start?
    obtain rfl : tokens p.before = pre := by
      rw [p.rest_eq] at hpre
      exact List.append_cancel_right hpre
    rcases hheader n hs with hn | ⟨k, hk, rfl⟩
    · cases hn
    · exact Nat.le_of_lt (Nat.lt_of_lt_of_le (start_lt_stop_of_mem_tokens hk)
        (stop_le_of_mem_tokens hk))

/-- The body comes behind the token. -/
theorem stop_le_body (p : Approach t ds d) (hk : p.token.kind = .word)
    (hb : d.bodySpan? = some body) : p.token.stop ≤ body.start := by
  obtain ⟨k, hs, brace, zs, hr, -, -, -, hbrace, hstart, -⟩ := exists_body_of_step p.found hb
  have hbehind : brace ∈ p.onward.rest :=
    (p.leads.runs (Text.bytes t)).suffix.subset (by rw [hr]; simp)
  have hmem : brace ∈ p.token :: place p.token.stop (pieces p.after) := by
    rcases p.onward_eq with hon | ⟨hon, -⟩
    · rwa [hon, p.rest_eq] at hbehind
    · rw [hon] at hbehind
      exact List.mem_cons_of_mem p.token hbehind
  rw [← hstart]
  rcases List.mem_cons.1 hmem with rfl | hmem
  · cases hk.symm.trans hbrace
  · exact (start_le_of_mem_place hmem).1

/-- With the word of a level put at the place, the declaration starts where it did. -/
theorem start_of_found {R : Nat → Nat → Prop} {d' : Declaration} (p : Approach t ds d)
    (h : d.FoundWith R (p.here.header.addModifier ⟨.word, Text.bytes p.before, w⟩) d') :
    d'.span.start = d.span.start := by
  rw [p.span_start, p.start_eq]
  apply h.start
  cases hs : p.here.header.start? <;> simp [Header.addModifier, hs]

end Source.Approach

namespace Declaration

/-- The edit that gives the declaration `d` of `t`, number `i`, the level `v` puts `w` in place of `u`
behind `a`. This lies before the body and behind the start of `d`, does not bear on the line end of
the text, and `d` is found again with its name, its start and its body. -/
structure Relevel (t : Text) (i : Nat) (d : Declaration) (body : Span) (v : Visibility)
    (a u w z : Text) : Prop where
  text_eq : t = a ++ (u ++ z)
  edit_eq : d.visibilityEdit v t = .ok (some ⟨⟨Text.bytes a, Text.bytes a + Text.bytes u⟩, w⟩)
  start_le : d.span.start ≤ Text.bytes a
  le_body : Text.bytes a + Text.bytes u ≤ body.start
  lineEnd_eq : lineEnd (a ++ (w ++ z)) = lineEnd t
  found : ∃ d' body', (declarations (a ++ (w ++ z)))[i]? = some d' ∧ d'.name = d.name ∧
    d'.span.start = d.span.start ∧ d'.bodySpan? = some body' ∧
    body'.start + Text.bytes u = body.start + Text.bytes w

end Declaration

namespace Source.Approach

variable {t : Text} {ds : List Declaration} {d : Declaration} {body : Span} {v : Visibility}
  {p : Approach t ds d} {w : Text}

/-- With the word of a level put at the place, the declaration is found with its name, its start and
its body, which has moved as what comes behind the word. -/
theorem exists_found {u y z : Text} {us : List Token} (p : Approach t ds d)
    (ht : t = p.before ++ (u ++ z)) (hv : v.keyword? = some w) (hk : p.token.kind = .word)
    (hr : tokens (p.before ++ (y ++ z)) = tokens p.before ++ ⟨.word, Text.bytes p.before, w⟩ :: us)
    (hus : List.Forall₂ (Token.Rel fun m n => n + Text.bytes u = m + Text.bytes y) p.onward.rest us)
    (hb : d.bodySpan? = some body) :
    ∃ d' body', (declarations (p.before ++ (y ++ z)))[ds.length]? = some d' ∧ d'.name = d.name ∧
      d'.span.start = d.span.start ∧ d'.bodySpan? = some body' ∧
      body'.start + Text.bytes u = body.start + Text.bytes y := by
  have hlast : Text.bytes (p.before ++ (y ++ z)) + Text.bytes u = Text.bytes t + Text.bytes y := by
    have hbytes := congrArg Text.bytes ht
    simp only [Text.bytes_append] at hbytes ⊢
    omega
  obtain ⟨d', ds', hr', hfound, -⟩ :=
    p.found_of_tokens hlast hv (p.pending?_eq_none hk) hr hus
  have hbody := hfound.bodySpan?
  rw [hb] at hbody
  generalize hb' : d'.bodySpan? = body? at hbody
  cases hbody with
  | @some _ body' hbody =>
    exact ⟨d', body', by rw [hr']; simp, hfound.name, p.start_of_found hfound, hb', hbody.1⟩

theorem Fresh.relevel (h : p.Fresh) (hk : d.kind ≠ .annotationType) (hv : v.keyword? = some w)
    (hne : d.visibility ≠ v) (hb : d.bodySpan? = some body) :
    d.Relevel t ds.length body v p.before [] (w ++ [' ']) (p.token.text ++ p.after) := by
  have hword := h.word hk
  have hid := Visibility.isIdentifier_keyword hv
  have hstop := p.stop_le_body hword hb
  have hpieces := pieces_put_word p.pieces_text (p.before_ne_word hword) hid
  refine { text_eq := p.text_eq, start_le := p.start_le, edit_eq := ?edit, le_body := ?body,
           lineEnd_eq := ?line, found := ?found }
  case edit =>
    rw [← h.modifierStart]
    exact Declaration.visibilityEdit_insert t hne h.visibilitySpan? hv
  case body =>
    rw [Token.stop, p.start_eq] at hstop
    exact Nat.le_trans (Nat.le_add_right _ _) hstop
  case line =>
    have hcr := not_mem_of_isIdentifier hid (c := '\r') (by decide)
    have heq := lineEnd_replace (a := p.before) (u := []) (w := w ++ [' '])
      (z := p.token.text ++ p.after) (by simp) (by simpa using hcr)
      (newline_not_mem_head? (p.isIdentifier_token hword) _) (by
        rw [List.append_assoc]
        exact newline_not_mem_head? hid _)
    rwa [List.nil_append, ← p.text_eq] at heq
  case found =>
    have htok := tokens_put_word hpieces
    rw [← List.singleton_append, ← List.append_assoc w] at htok
    refine p.exists_found (u := []) p.text_eq hv hword htok ?_ hb
    rw [h.onward]
    refine p.rest_rel_of fun i => ?_
    rw [p.start_eq, Text.bytes_append, Text.bytes_nil]
    omega

theorem Leveled.relevel (h : p.Leveled) (hv : v.keyword? = some w)
    (hne : d.visibility ≠ v) (hb : d.bodySpan? = some body) :
    d.Relevel t ds.length body v p.before p.token.text w p.after := by
  have hid := Visibility.isIdentifier_keyword hv
  have hid' := p.isIdentifier_token h.token
  have hstop := p.stop_le_body h.token hb
  refine { text_eq := p.text_eq, start_le := p.start_le, le_body := ?body, lineEnd_eq := ?line,
           edit_eq := Declaration.visibilityEdit_replace t hne h.visibilitySpan? hv,
           found := ?found }
  case body => rwa [Token.stop, p.start_eq] at hstop
  case line =>
    have heq := lineEnd_replace (a := p.before) (z := p.after)
      (not_mem_of_isIdentifier hid' (c := '\r') (by decide))
      (not_mem_of_isIdentifier hid (c := '\r') (by decide))
      (newline_not_mem_head? hid' _) (newline_not_mem_head? hid _)
    rwa [← p.text_eq] at heq
  case found =>
    refine p.exists_found p.text_eq hv h.token
      (tokens_replace_word (p.word_text h.token) hid) ?_ hb
    rw [h.onward]
    refine place_rel (fun i => ?_) (pieces p.after)
    rw [Token.stop, p.start_eq]
    omega

end Source.Approach

namespace Declaration

variable {t : Text} {i : Nat} {d : Declaration} {body : Span} {v : Visibility}

theorem exists_relevel (hd : (declarations t)[i]? = some d) (hk : d.kind ≠ .annotationType)
    (hb : d.bodySpan? = some body) (hv : v ≠ .package) (hne : d.visibility ≠ v) :
    ∃ a u w z, d.Relevel t i body v a u w z := by
  obtain ⟨w, hw⟩ := Visibility.exists_keyword hv
  obtain ⟨ds, rfl, p, hp | hp⟩ := exists_approach hd
  · exact ⟨_, _, _, _, hp.relevel hk hw hne hb⟩
  · exact ⟨_, _, _, _, hp.relevel hw hne hb⟩

namespace Relevel

variable {a u w m b before after : Text}

/-- Its edit puts in the level. -/
theorem editAt?_visibilityEdit {z : Text} (h : d.Relevel t i body v a u w z)
    (hd : (declarations t)[i]? = some d) :
    editAt? i (·.visibilityEdit v) t = some (a ++ (w ++ z)) := by
  have happly := Edit.apply_between a u w z
  rw [← h.text_eq] at happly
  exact editAt?_of_some hd h.edit_eq happly

/-- With the level put in, the constructor of the declaration is the one it had before. -/
theorem editAt?_constructorEdit (h : d.Relevel t i body v a u w (m ++ '\x7b' :: b))
    (hcut : cutAt d.span.start t = .ok (before, after)) (hm : body.start = Text.bytes (a ++ u ++ m)) :
    editAt? i constructorEdit (a ++ (w ++ (m ++ '\x7b' :: b))) =
      some (a ++ (w ++ (m ++ '\x7b' :: withConstructor d.name before (lineEnd t) b))) := by
  obtain ⟨d', body', hd', hname, hstart, hb', hmoved⟩ := h.found
  obtain ⟨after', hcut'⟩ := exists_cutAt_append (h.text_eq ▸ hcut) h.start_le
    (w ++ (m ++ '\x7b' :: b))
  rw [← hstart] at hcut'
  have hbody : body'.start = Text.bytes (a ++ (w ++ m)) := by
    simp only [Text.bytes_append] at hm ⊢
    omega
  obtain ⟨e, he, hr⟩ := constructorEdit_apply (b := b) hb' hcut' (by simp) hbody
  rw [hname, h.lineEnd_eq] at hr
  rw [editAt?_of_some hd' he hr, List.append_assoc, List.append_assoc]

end Relevel

/-- **The level of a class, an interface or an enum, and its constructor,** can be put in in either
order: all edits apply, and the texts in the end are the same. -/
theorem edits_commute (hd : (declarations t)[i]? = some d) (hk : d.kind ≠ .annotationType)
    (hb : d.bodySpan? = some body) (hv : v ≠ .package) :
    ∃ r, (editAt? i (·.visibilityEdit v) t).bind (editAt? i constructorEdit) = some r ∧
      (editAt? i constructorEdit t).bind (editAt? i (·.visibilityEdit v)) = some r := by
  obtain ⟨x, b, before, after, ht, hx, hcut, hedit, d', hd', hsame⟩ :=
    exists_editAt?_constructorEdit hd hb
  have hcongr := fun t' => visibilityEdit_congr hsame hv t t'
  by_cases hne : d.visibility = v
  · have hnone := visibilityEdit_of_eq t hne
    refine ⟨x ++ '\x7b' :: withConstructor d.name before (lineEnd t) b, ?_, ?_⟩
    · rw [editAt?_of_none hd hnone]
      exact hedit
    · rw [hedit]
      exact editAt?_of_none hd' ((hcongr _).trans hnone)
  obtain ⟨a, u, w, z, h⟩ := exists_relevel hd hk hb hv hne
  -- the text up to the brace, cut around the place of the level
  obtain ⟨m, rfl, rfl⟩ : ∃ m, x = (a ++ u) ++ m ∧ z = m ++ '\x7b' :: b := by
    refine Text.exists_of_bytes_le (by rw [List.append_assoc, ← h.text_eq, ht]) ?_
    rw [Text.bytes_append, ← hx]
    exact h.le_body
  refine ⟨a ++ (w ++ (m ++ '\x7b' :: withConstructor d.name before (lineEnd t) b)), ?_, ?_⟩
  · rw [h.editAt?_visibilityEdit hd]
    exact h.editAt?_constructorEdit hcut hx
  · have happly := Edit.apply_between a u w
      (m ++ '\x7b' :: withConstructor d.name before (lineEnd t) b)
    rw [hedit]
    refine editAt?_of_some hd' ((hcongr _).trans h.edit_eq) ?_
    rwa [List.append_assoc, List.append_assoc]

/-- An indented annotation, and the pair of both characters at the end of a line. -/
theorem edits_commute_annotated :
    let t : Text := "\t@T(1)\r\n\tfinal enum A \x7bC\x7d"
    let r : Text := "\t@T(1)\r\n\tprotected final enum A \x7b\r\n" ++
      "\t    public A() \x7b\r\n\t    \x7d\r\nC\x7d"
    ∃ d body, (declarations t)[0]? = some d ∧ d.kind ≠ .annotationType ∧ d.bodySpan? = some body ∧
      (editAt? 0 (·.visibilityEdit .prot) t).bind (editAt? 0 constructorEdit) = some r ∧
      (editAt? 0 constructorEdit t).bind (editAt? 0 (·.visibilityEdit .prot)) = some r := by
  intro t r
  have hd : (declarations t)[0]? =
      some ⟨"A", .enum, .package, none, 9, ⟨1, 25⟩, ⟨20, 21⟩, some ⟨22, 25⟩⟩ := by decide +kernel
  have hr : (editAt? 0 (·.visibilityEdit .prot) t).bind (editAt? 0 constructorEdit) = some r := by
    decide +kernel
  obtain ⟨r', hlevel, hconstructor⟩ := edits_commute (v := .prot) hd (by decide) rfl (by decide)
  obtain rfl : r = r' := Option.some.inj (hr.symm.trans hlevel)
  exact ⟨_, _, hd, by decide, rfl, hr, hconstructor⟩

end Declaration

end QuickFix
