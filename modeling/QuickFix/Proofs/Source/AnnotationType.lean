import QuickFix.Proofs.Source.Visibility
import QuickFix.Proofs.Source.Waiting

/-!
# Giving an annotation type a level

The `@` of an annotation type may stand right behind a word, and behind a statement that waits for a
name. The word of a level that is put before it then goes to that word or that name.

* `outlines_iff_lends`: a word that becomes a name gives its level to the annotation type only if the
  state that waited for the name lends it (`Scanner.lends`);
* `outlines_ne_of_word`: a word that makes another word longer gives no level;
* `Declaration.visibilityEdit_outlines_iff`: the edit gives the level exactly if the declaration has a
  modifier to replace or takes the word (`Declaration.takes`).
-/

namespace QuickFix

open Source Source.Scanner

namespace Source

/-! ## Where the word goes -/

/-- Does a word end at the offset where the tokens end? -/
def touches (n : Nat) (ts : List Token) : Bool :=
  ts.getLast?.any fun k => k.kind = .word && k.stop = n

/-- The tokens before the word that a word put at offset `n` behind the tokens `ts` goes to. -/
def apart (n : Nat) (ts : List Token) : List Token := if touches n ts then ts.dropLast else ts

/-- Does a declaration `name` show the level `v` when the word `w` goes to the name that the state
waits for? It does by the modifiers before an annotation, and by those before an annotation type that
gets the name. -/
def Scanner.lends (q : Scanner) (v : Visibility) (w name : Text) : Bool :=
  q.header.visibility?.map (·.1) = some v &&
    match q.rest with
    | [] => false
    | t :: ts =>
      match role q.afterDot t ts with
      | .annotationUse => true
      | .annotationType => w = name
      | _ => false

end Source

/-- Does the declaration show the level `v` after its word `w` is put before it? -/
def Declaration.takes (d : Declaration) (v : Visibility) (w t : Text) : Bool :=
  let ts := (tokens t).filter (·.start < d.modifierStart)
  match (start (apart d.modifierStart ts)).pending? with
  | none => !touches d.modifierStart ts
  | some q => q.lends v w d.name

namespace Source

theorem kind_ne_of_touches {a : Text} (h : touches (Text.bytes a) (tokens a) = false) :
    ∀ q ∈ (pieces a).getLast?, q.kind ≠ .token .word := by
  intro q hq hw
  obtain ⟨pre, k, ht, hk, hs⟩ := exists_last_token hq hw
  simp [touches, ht, hk, hs] at h

theorem exists_of_touches {a : Text} (h : touches (Text.bytes a) (tokens a) = true) :
    ∃ b u, a = b ++ u ∧ pieces a = pieces b ++ [⟨.token .word, u⟩] ∧
      tokens a = tokens b ++ [⟨.word, Text.bytes b, u⟩] ∧
      apart (Text.bytes a) (tokens a) = tokens b := by
  have h' := h
  unfold touches at h'
  obtain ⟨k, hk, hw⟩ := (Option.any_eq_true ..).1 h'
  simp only [Bool.and_eq_true, decide_eq_true_eq] at hw
  obtain ⟨pre, hpre⟩ := List.getLast?_eq_some_iff.1 hk
  obtain ⟨b, ha, hp, hb, hs⟩ := exists_last_word hpre hw.1 hw.2
  have hk : k = ⟨.word, Text.bytes b, k.text⟩ := by rw [← hw.1, ← hs]
  refine ⟨b, k.text, ha, hp, by rw [hb, ← hk, hpre], ?_⟩
  rw [apart, if_pos h, hpre, hb, List.dropLast_concat]

theorem apart_of_touches {n : Nat} {ts : List Token} (h : touches n ts = false) :
    apart n ts = ts := by rw [apart, if_neg (by simp [h])]

/-- A longer word that ends with the word of a level is none that a scan knows. -/
theorem not_mem_of_append_keyword {v : Visibility} {u w : Text} (hv : v.keyword? = some w)
    (hu : u ≠ []) : u ++ w ∉ signs ++ modifiers ++
      (["package", "import", "class", "interface", "enum"] : List Text) := by
  have hall : ∀ s ∈ signs ++ modifiers ++
      (["package", "import", "class", "interface", "enum"] : List Text),
      ∀ v ∈ Visibility.all, ∀ w ∈ v.keyword?.toList, w <:+ s → s = w := by decide
  intro hm
  have hw : u ++ w = w := hall _ hm v (by cases v <;> decide) w (by simp [hv])
    (List.suffix_append u w)
  exact hu (List.append_cancel_right (hw.trans (List.nil_append w).symm))

theorem role_other {dot : Bool} {n : Nat} {w : Text} (ts : List Token)
    (h : w ∉ signs ++ modifiers ++
      (["package", "import", "class", "interface", "enum"] : List Text)) :
    role dot ⟨.word, n, w⟩ ts = .other := by
  have hne : ∀ s ∈ signs ++ modifiers ++
      (["package", "import", "class", "interface", "enum"] : List Text), w ≠ s :=
    fun s hs he => h (he ▸ hs)
  have hstatement : ¬((⟨.word, n, w⟩ : Token).isWord "package" = true ∨
      (⟨.word, n, w⟩ : Token).isWord "import" = true) := by
    simp only [Token.isWord, Bool.and_eq_true, decide_eq_true_eq, not_or, not_and]
    exact ⟨fun _ => hne _ (by decide), fun _ => hne _ (by decide)⟩
  have hmodifier : w ∉ modifiers := fun hm =>
    h (List.mem_append_left _ (List.mem_append_right _ hm))
  have hkeyword : keywordKind? w = none := by
    rw [keywordKind?, if_neg (hne _ (by decide)), if_neg (hne _ (by decide)),
      if_neg (hne _ (by decide))]
  rw [role, if_neg hstatement, if_neg (by simp), if_neg fun hm => hmodifier hm.2]
  simp [hkeyword]

/-! ## The scan of the text with the word put in -/

theorem tailOf_cons {last : Nat} {t : Token} (ts : List Token)
    (h : t.kind = .word ∨ t.kind = .at) : tailOf last (t :: ts) = tailOf last ts := by
  have hk : t.kind ≠ .openParen ∧ t.kind ≠ .closeParen ∧ t.kind ≠ .openBrace ∧
      t.kind ≠ .semicolon := by rcases h with h | h <;> simp [h]
  simp [tailOf, headerEnd?, hk.1, hk.2.1, hk.2.2.1, hk.2.2.2]

/-- The tokens of an annotation type that a step finds. -/
theorem exists_of_annotationType {last : Nat} {s s' : Scanner} {d : Declaration} {k : Token}
    {x : List Token} (h : s.step last = (some d, s')) (hr : s.rest = k :: x)
    (hrole : role s.afterDot k x = .annotationType) :
    ∃ i name y, x = i :: name :: y ∧ i.text = ("interface" : Text) ∧ name.kind = .word ∧
      s' = start (tailOf last y).rest ∧ k.kind = .at ∧ d.kind = .annotationType := by
  obtain ⟨hk, hi⟩ := Role.Fits.of_eq hrole
  obtain ⟨t, ts, us, kind, hr', hs', hd, hcase⟩ := step_eq_some h
  rw [hr] at hr'
  cases hr'
  rcases hcase with ⟨hkey, -⟩ | ⟨-, rfl, rfl⟩
  · rw [hrole] at hkey; cases hkey
  obtain ⟨name, y, hx, hn, hrest, hfound⟩ := declaration?_eq_some hd
  cases x with
  | nil => cases hx
  | cons i x =>
    obtain rfl : x = name :: y := hx
    refine ⟨i, name, y, rfl, Option.some.inj hi, hn, ?_, hk, congrArg Declaration.kind hfound⟩
    rw [hs', hrest]

/-- The level that a header shows is `v` exactly if the header has it, as `v` is not the package's. -/
theorem level_eq_iff {v : Visibility} (hv : v ≠ .package) (h : Option (Visibility × Span)) :
    (h.map (·.1)).getD .package = v ↔ h.map (·.1) = some v := by
  cases h with
  | none => simpa using fun he => hv he.symm
  | some p => simp

section

variable {last last' : Nat} {here behind : Scanner} {d : Declaration} {us : List Token}

/-- A declaration is found again before related tokens, with the level of any header. -/
theorem exists_run_of_header (hd : here.step last = (some d, behind))
    (hus : List.Forall₂ (Token.Rel fun _ _ => True) here.rest us) (h : Header) :
    ∃ d' ds', (⟨false, h, us⟩ : Scanner).run last' = d' :: ds' ∧
      d'.outline = (d.name, d.kind, (h.visibility?.map (·.1)).getD .package) ∧
      List.Forall₂ (Declaration.Rel fun _ _ => True) (behind.run last) ds' := by
  obtain ⟨d', ds', hrun, hfound, hds⟩ : ∃ d' ds',
      (⟨false, h, us⟩ : Scanner).run last' = d' :: ds' ∧ _ :=
    run_of_leads h trivial (.refl here) (fun m hm => by cases hm) hd hus
  exact ⟨d', ds', hrun, by rw [Declaration.outline, hfound.name, hfound.kind, hfound.visibility], hds⟩

/-- A keyword that takes a word as its name finds what follows the name of an annotation type after
it. -/
theorem exists_run_of_name {s : Scanner} {w k i : Token} {x : List Token} {kind : ClassKind}
    {header : Header} {start' : Nat} (hd : here.step last = (some d, behind))
    (hr : here.rest = k :: i :: x) (hi : i.kind = .word)
    (hrole : role here.afterDot k (i :: x) = .annotationType)
    (hus : List.Forall₂ (Token.Rel fun _ _ => True) here.rest us) (hs : s.rest ≠ [])
    (hw : w.kind = .word) (hst : s.step last' = finish last' header kind start' (w :: us)) :
    ∃ d' ds', s.run last' = d' :: ds' ∧
      d'.outline = (w.text, kind, (header.visibility?.map (·.1)).getD .package) ∧
      List.Forall₂ (Declaration.Rel fun _ _ => True) (behind.run last) ds' := by
  obtain ⟨_, name, y, hx, -, hname, hbehind, hk, -⟩ := exists_of_annotationType hd hr hrole
  obtain ⟨rfl, rfl⟩ := List.cons.inj hx
  have htail : (tailOf last (k :: i :: name :: y)).rest = (tailOf last y).rest := by
    rw [tailOf_cons _ (.inr hk), tailOf_cons _ (.inl hi), tailOf_cons _ (.inl hname)]
  have hrest : behind.Rel (fun _ _ => True) (start (tailOf last' us).rest) := by
    rw [hbehind, ← htail, ← hr]
    exact .start (tailOf_rel trivial hus).2.2
  obtain ⟨d', hfin, hn⟩ : ∃ d', declaration? last' header kind start' (w :: us) =
      some (d', (tailOf last' us).rest) ∧ d'.name = w.text := by
    simp only [declaration?, if_pos hw]
    exact ⟨_, rfl, rfl⟩
  obtain ⟨_, _, -, -, -, hfound⟩ := declaration?_eq_some hfin
  have hkind : d'.kind = kind := by rw [hfound]
  have hvis : d'.visibility = (header.visibility?.map (·.1)).getD .package := by rw [hfound]
  have hst' : s.step last' = (some d', start (tailOf last' us).rest) := by rw [hst, finish, hfin]
  refine ⟨d', _, by rw [run_step hs hst']; rfl, ?_, run_rel trivial hrest⟩
  rw [Declaration.outline, hn, hkind, hvis]

/-- **The word goes to a name that a state waits for**: the declarations show the same but for the
level `v` of the annotation type exactly if the state lends it. -/
theorem outlines_iff_lends {z : List Token} {ds : List Declaration} {q : Scanner}
    {v : Visibility} {w k i : Token} {x : List Token} (hv : v ≠ .package) (hw : w.kind = .word)
    (hs : w.text ∉ signs) (hq : q.rest ≠ []) (ha : q.awaitsName = true)
    (hrun : Runs last' ((start z).put (w :: us)) ds (q.put (w :: us)))
    (hd : here.step last = (some d, behind)) (hr : here.rest = k :: i :: x) (hi : i.kind = .word)
    (hrole : role here.afterDot k (i :: x) = .annotationType)
    (hus : List.Forall₂ (Token.Rel fun _ _ => True) here.rest us) :
    ((start (z ++ w :: us)).run last').map Declaration.outline =
        ((ds ++ d :: behind.run last).map Declaration.outline).set ds.length (d.name, d.kind, v) ↔
      q.lends v w.text d.name = true := by
  -- what the state goes on to find first, and whether this is the annotation type with its level
  suffices h : ∃ d' ds', (q.put (w :: us)).run last' = d' :: ds' ∧
      List.Forall₂ (Declaration.Rel fun _ _ => True) (behind.run last) ds' ∧
      (d'.outline = (d.name, d.kind, v) ↔ q.lends v w.text d.name = true) by
    obtain ⟨d', ds', hq', hds, hiff⟩ := h
    rw [← hiff, ← Declaration.map_outline_set_iff hds, ← hq', ← hrun.run_eq]
    rfl
  obtain ⟨-, -, -, -, -, -, -, hk, hkind⟩ := exists_of_annotationType hd hr hrole
  obtain ⟨k', us', rfl, hk'⟩ : ∃ k' us', us = k' :: us' ∧ k'.kind = .at := by
    rw [hr] at hus
    cases hus with
    | cons hkk _ => exact ⟨_, _, rfl, hkk.kind ▸ hk⟩
  have hne : (q.put (w :: k' :: us')).rest ≠ [] := by simp
  obtain ⟨t, ts, hqr, hcase⟩ := step_word last' hq ha hw hs hk' (x := us')
  rcases hcase with ⟨hrole', hst⟩ | ⟨hrole', hst⟩ | ⟨kind, hrole', hst⟩
  · obtain ⟨d', ds', hrun', ho, hds⟩ := exists_run_of_header hd hus .empty
    refine ⟨d', ds', by rw [run_step hne hst]; exact hrun', hds, ?_⟩
    simp only [ho, lends, hqr, hrole', Bool.and_false, Bool.false_eq_true, iff_false, Prod.mk.injEq,
      not_and]
    exact fun _ _ he => hv he.symm
  · obtain ⟨d', ds', hrun', ho, hds⟩ :=
      exists_run_of_header hd hus (q.header.addAnnotationAt t.start)
    refine ⟨d', ds', by rw [run_step hne hst]; exact hrun', hds, ?_⟩
    simp only [ho, lends, hqr, hrole', Bool.and_true, decide_eq_true_eq, Prod.mk.injEq, true_and]
    exact level_eq_iff hv _
  · obtain ⟨d', ds', hrun', ho, hds⟩ := exists_run_of_name hd hr hi hrole hus hne hw hst
    refine ⟨d', ds', hrun', hds, ?_⟩
    rw [ho, hkind]
    rcases hrole' with ⟨hrole', rfl⟩ | hrole'
    · simp only [lends, hqr, hrole', Bool.and_eq_true, decide_eq_true_eq, Prod.mk.injEq, true_and,
        level_eq_iff hv]
      exact and_comm
    · have hne' : kind ≠ .annotationType := by
        rintro rfl
        have hword := (Role.Fits.of_eq hrole').2.2
        unfold keywordKind? at hword
        repeat' split at hword
        all_goals cases hword
      simp only [lends, hqr, hrole', Bool.and_false, Bool.false_eq_true, iff_false, Prod.mk.injEq,
        not_and]
      exact fun _ he => absurd he hne'

/-- **The word goes nowhere** when it goes to a word outside of any name: the annotation type keeps
the package's level. -/
theorem outlines_ne_of_word {z : List Token} {ds : List Declaration} {l : Scanner}
    {v : Visibility} {w : Token} (hv : v ≠ .package) (hl : l.rest = []) (hw : w.kind = .word)
    (hrole : ∀ dot, role dot w us = .other)
    (hrun : Runs last' ((start z).put (w :: us)) ds (l.put (w :: us)))
    (hd : here.step last = (some d, behind))
    (hus : List.Forall₂ (Token.Rel fun _ _ => True) here.rest us) :
    ((start (z ++ w :: us)).run last').map Declaration.outline ≠
      ((ds ++ d :: behind.run last).map Declaration.outline).set ds.length
        (d.name, d.kind, v) := by
  have hrest : (l.put (w :: us)).rest = w :: us := by simp [hl]
  have hst : (l.put (w :: us)).step last' = (none, ⟨false, .empty, us⟩) := by
    simp only [step, hrest, hrole, hw, reduceCtorEq, decide_false]
  obtain ⟨d', ds', hrun', ho, hds⟩ := exists_run_of_header hd hus .empty
  have hall : (start (z ++ w :: us)).run last' = ds ++ d' :: ds' := by
    have := hrun.run_eq
    rw [run_step (by simp) hst, hrun'] at this
    exact this
  rw [hall, Ne, Declaration.map_outline_set_iff hds, ho]
  intro he
  exact hv (Prod.mk.inj (Prod.mk.inj he).2).2.symm

end

/-- A word in no name before `x` finds nothing. -/
theorem eq_none_of_step_word {last : Nat} {l s' : Scanner} {w : Token} {x : List Token}
    {d? : Option Declaration} (hl : l.rest = []) (hw : w.kind = .word) (hx : x ≠ [])
    (h : (l.put (w :: x)).step last = (d?, s')) (hs' : s'.rest = x) : d? = none := by
  cases d? with
  | none => rfl
  | some d =>
    obtain ⟨t, ts, us, kind, hr, -, hd, hcase⟩ := step_eq_some h
    have hts : w = t ∧ x = ts := by simpa [hl] using hr
    obtain ⟨rfl, rfl⟩ := hts
    rcases hcase with ⟨-, rfl⟩ | ⟨hrole, -⟩
    · obtain ⟨k, us, rfl⟩ := List.exists_cons_of_ne_nil hx
      have hsuffix := declaration?_suffix hd
      rw [hs'] at hsuffix
      cases eq_nil_of_append_suffix (b := [k]) hsuffix
    · rw [(Role.Fits.of_eq hrole).1] at hw; cases hw

namespace Approach

variable {t : Text} {ds : List Declaration} {d : Declaration} {p : Approach t ds d}
  {v : Visibility} {w : Text}

theorem filter_tokens (p : Approach t ds d) (hm : d.modifierStart = Text.bytes p.before) :
    (tokens t).filter (·.start < d.modifierStart) = tokens p.before := by
  obtain ⟨-, h, -⟩ := pieces_of_append p.pieces_text
  rw [hm]
  exact filter_tokens_of_pieces (p.pieces_eq.trans (congrArg _ h.symm))

/-- Before a declaration that starts with a word, the word of a level is a modifier. -/
theorem touches_eq_false (p : Approach t ds d) (hk : p.token.kind = .word) :
    touches (Text.bytes p.before) (tokens p.before) = false := by
  obtain ⟨-, h, hlast⟩ := pieces_of_append p.pieces_text
  refine Bool.eq_false_iff.2 fun ht => ?_
  obtain ⟨b, u, -, hp, -, -⟩ := exists_of_touches ht
  have hid : Text.isIdentifier p.token.text = true := by
    have := (pieces_cons h).2.1
    rw [hk] at this
    exact (word_endsBefore_iff.1 this).1
  exact kind_ne_word_of_endsBefore (hlast ⟨.token .word, u⟩ (by simp [hp])) hid rfl

theorem Fresh.takes_eq (h : p.Fresh) : d.takes v w t =
    match (start (apart (Text.bytes p.before) (tokens p.before))).pending? with
    | none => !touches (Text.bytes p.before) (tokens p.before)
    | some q => q.lends v w d.name := by
  rw [Declaration.takes, p.filter_tokens h.modifierStart, h.modifierStart]

/-- The tokens of an annotation type from its `@` on. -/
theorem exists_interface (p : Approach t ds d)
    (hrole : role p.here.afterDot p.token (place p.token.stop (pieces p.after)) =
      .annotationType) :
    p.token.kind = .at ∧ ∃ i x, place p.token.stop (pieces p.after) = i :: x ∧ i.kind = .word := by
  obtain ⟨hk, hi⟩ := Role.Fits.of_eq hrole
  obtain ⟨i, hh, ht⟩ := Option.map_eq_some_iff.1 hi
  obtain ⟨x, hx⟩ := List.head?_eq_some_iff.1 hh
  refine ⟨hk, i, x, hx, kind_of_mem_tokens (t := t) ?_ (by rw [ht]; decide)⟩
  rw [p.tokens_eq, hx]
  simp

/-- The word of a level put before the `@` of an annotation type that no word touches. -/
theorem Fresh.outlines_iff_of_apart (h : p.Fresh) (hkey : p.keyword = p.here)
    (hrole : role p.here.afterDot p.token (place p.token.stop (pieces p.after)) = .annotationType)
    (hv : v.keyword? = some w)
    (ht : touches (Text.bytes p.before) (tokens p.before) = false) :
    (declarations (p.before ++ (w ++ ' ' :: (p.token.text ++ p.after)))).map
        Declaration.outline =
      ((declarations t).map Declaration.outline).set ds.length (d.name, d.kind, v) ↔
      d.takes v w t = true := by
  rw [h.takes_eq, apart_of_touches ht]
  cases hq : (start (tokens p.before)).pending? with
  | none =>
    have := p.put_keyword h.onward (kind_ne_of_touches ht) hq hv
    exact iff_of_true this.1 (by rw [ht]; rfl)
  | some q =>
    have htok := tokens_put_word (pieces_put_word p.pieces_text (kind_ne_of_touches ht)
      (Visibility.isIdentifier_keyword hv))
    obtain ⟨ds₁, ds₂, rfl, hrun₂, hqr, ha, hrun₁⟩ := p.runs_put.to_pending rfl (by simp) hq
    obtain rfl : ds₂ = [] := runs_of_awaitsName (by simp) ha hrun₂
    obtain ⟨-, i, x, hx, hi⟩ := p.exists_interface hrole
    have hpackage : v ≠ .package := by rintro rfl; cases hv
    have hfound := p.found
    rw [hkey] at hfound
    rw [declarations, htok, p.declarations_eq]
    simp only [List.append_nil] at hrun₁ ⊢
    refine outlines_iff_lends hpackage rfl (Visibility.keyword_not_mem_signs hv) hqr ha
      (hrun₁ _ _ ?_) hfound (p.rest_eq.trans (by rw [hx])) hi (by rw [← hx]; exact hrole)
      (p.rest_rel _)
    intro k hk
    obtain rfl := Option.some.inj hk
    exact ⟨by simp, by simp, by simp, .inr (Visibility.keyword_not_mem_signs hv)⟩

/-- The word of a level put behind a word that touches the place makes it longer. -/
theorem tokens_put_behind (p : Approach t ds d) (hv : v.keyword? = some w)
    (ht : touches (Text.bytes p.before) (tokens p.before) = true) :
    ∃ b u, u ≠ [] ∧ u ≠ ['*'] ∧ apart (Text.bytes p.before) (tokens p.before) = tokens b ∧
      tokens p.before = tokens b ++ [⟨.word, Text.bytes b, u⟩] ∧
      tokens (p.before ++ (w ++ ' ' :: (p.token.text ++ p.after))) =
        tokens b ++ ⟨.word, Text.bytes b, u ++ w⟩ ::
          place (Text.bytes b + Text.bytes (u ++ w) + Text.bytes [' '])
            (⟨.token p.token.kind, p.token.text⟩ :: pieces p.after) := by
  obtain ⟨b, u, hb, hpb, htb, hap⟩ := exists_of_touches ht
  -- the old text, cut before that word
  have hpt := p.pieces_text
  obtain ⟨-, hka, -⟩ := pieces_of_append hpt
  rw [List.flatMap_cons, flatten_pieces] at hka
  rw [hpb, hb, List.append_assoc, List.append_assoc, List.singleton_append, ← hka] at hpt
  have hword := (pieces_cons (pieces_of_append hpt).2.1).2.1
  have hstar : u ≠ ['*'] := by
    rintro rfl
    exact absurd (word_endsBefore_iff.1 hword).1 (by decide)
  have htok := tokens_put_word (pieces_put_behind_word hpt (Visibility.isIdentifier_keyword hv))
  have hr : p.before ++ (w ++ ' ' :: (p.token.text ++ p.after)) =
      b ++ ((u ++ w) ++ ' ' :: (p.token.text ++ p.after)) := by rw [hb]; simp
  exact ⟨b, u, hword.ne_nil, hstar, hap, htb, by rw [hr, htok, hka]⟩

/-- The run up to the word before the place, and the step that reads this word. -/
theorem exists_step_before (p : Approach t ds d) {k : Token} {ts : List Token}
    (h : tokens p.before = ts ++ [k]) :
    ∃ (ds₁ : List Declaration) (l : Scanner) (d? : Option Declaration),
      Runs (Text.bytes t) ((start ts).put (k :: p.here.rest)) ds₁ (l.put (k :: p.here.rest)) ∧
      (l.put (k :: p.here.rest)).step (Text.bytes t) = (d?, p.here) ∧ ds = ds₁ ++ d?.toList := by
  have hrun := p.runs_put
  have hput : (start (tokens p.before)).put (p.token :: place p.token.stop (pieces p.after)) =
      (start ts).put (k :: p.here.rest) := by
    rw [h, p.rest_eq]
    simp [start, put]
  rw [hput, withRest_put p.rest_eq] at hrun
  exact hrun.exists_last_step rfl

/-- The word of a level put before the `@` of an annotation type goes to a word that touches it. -/
theorem Fresh.outlines_iff_of_touches (h : p.Fresh) (hkey : p.keyword = p.here)
    (hrole : role p.here.afterDot p.token (place p.token.stop (pieces p.after)) = .annotationType)
    (hv : v.keyword? = some w)
    (ht : touches (Text.bytes p.before) (tokens p.before) = true) :
    (declarations (p.before ++ (w ++ ' ' :: (p.token.text ++ p.after)))).map
        Declaration.outline =
      ((declarations t).map Declaration.outline).set ds.length (d.name, d.kind, v) ↔
      d.takes v w t = true := by
  obtain ⟨b, u, hu, hstar, hap, htb, htok⟩ := p.tokens_put_behind hv ht
  obtain ⟨ds₁, l, d?, hrun, hst, hds⟩ := p.exists_step_before htb
  have hplain := not_mem_of_append_keyword hv hu
  have hsigns : u ++ w ∉ signs := fun hm =>
    hplain (List.mem_append_left _ (List.mem_append_left _ hm))
  have hpackage : v ≠ .package := by rintro rfl; cases hv
  have hrest : p.here.rest ≠ [] := by rw [p.rest_eq]; exact List.cons_ne_nil _ _
  have hjoins : ∀ us, Joins (⟨.word, Text.bytes b, u⟩ :: p.here.rest)
      (⟨.word, Text.bytes b, u ++ w⟩ :: us) := by
    intro us k hk
    obtain rfl := Option.some.inj hk
    exact ⟨by simp, by simp, by simp, .inr hsigns⟩
  have hrun' := fun us => hrun.change
    (Text.bytes (p.before ++ (w ++ ' ' :: (p.token.text ++ p.after)))) (List.cons_ne_nil _ _)
    (hjoins us) (.inr (.inl ⟨_, rfl, rfl⟩))
  have hfound := p.found
  rw [hkey] at hfound
  have hrel := p.rest_rel (Text.bytes b + Text.bytes (u ++ w) + Text.bytes [' '])
  rw [h.takes_eq, hap, hrun.pending?_eq rfl, declarations, htok, p.declarations_eq]
  by_cases hl : l.rest = []
  · obtain rfl : d? = none := eq_none_of_step_word hl rfl hrest hst rfl
    rw [Option.toList_none, List.append_nil] at hds
    subst hds
    rw [pending?_nil hl, ht]
    refine iff_of_false ?_ (by simp)
    exact outlines_ne_of_word hpackage hl rfl (fun dot => role_other _ hplain) (hrun' _) hfound hrel
  · obtain ⟨ha, rfl, t', ts, hlr, hlrole⟩ := awaitsName_of_step hl rfl hstar hrest hst rfl
    rw [Option.toList_none, List.append_nil] at hds
    subst hds
    rw [pending?_of_awaitsName hl ha]
    obtain ⟨-, i, x, hx, hi⟩ := p.exists_interface hrole
    have hiff := outlines_iff_lends hpackage rfl hsigns hl ha (hrun' _) hfound
      (p.rest_eq.trans (by rw [hx])) hi (by rw [← hx]; exact hrole) hrel
    refine hiff.trans ?_
    simp only [lends, hlr]
    rcases hlrole with hlrole | hlrole <;> simp only [hlrole]

/-- **The word of a level put before a declaration** that has none gives it this level exactly if the
declaration takes the word. -/
theorem Fresh.outlines_iff (h : p.Fresh) (hv : v.keyword? = some w) :
    (declarations (p.before ++ (w ++ ' ' :: (p.token.text ++ p.after)))).map
        Declaration.outline =
      ((declarations t).map Declaration.outline).set ds.length (d.name, d.kind, v) ↔
      d.takes v w t = true := by
  rcases h.token with ⟨hword, -⟩ | ⟨-, hkey, -, hrole⟩
  · have ht := p.touches_eq_false hword
    have hpend := p.pending?_eq_none hword
    rw [h.takes_eq, apart_of_touches ht, hpend]
    exact iff_of_true (p.put_keyword h.onward (kind_ne_of_touches ht) hpend hv).1 (by rw [ht]; rfl)
  cases ht : touches (Text.bytes p.before) (tokens p.before) with
  | false => exact h.outlines_iff_of_apart hkey hrole hv ht
  | true => exact h.outlines_iff_of_touches hkey hrole hv ht

end Approach

end Source

/-- **Giving a declaration a level** other than the package's: the edit applies, and the new text has
the same declarations but for this level exactly if the declaration has a modifier to replace or takes
the word of the level. -/
theorem Declaration.visibilityEdit_outlines_iff {t : Text} {i : Nat} {d : Declaration}
    {v : Visibility} {w : Text} (hd : (declarations t)[i]? = some d) (hne : d.visibility ≠ v)
    (hv : v.keyword? = some w) :
    ∃ e r, d.visibilityEdit v t = .ok (some e) ∧ e.apply t = .ok r ∧
      ((declarations r).map outline =
          ((declarations t).map outline).set i (d.name, d.kind, v) ↔
        d.visibilitySpan? ≠ none ∨ d.takes v w t = true) := by
  obtain ⟨ds, rfl, p, hp | hp⟩ := exists_approach hd
  · obtain ⟨e, he, hr⟩ := hp.edit hne hv
    refine ⟨e, _, he, hr, (hp.outlines_iff hv).trans ?_⟩
    simp [hp.visibilitySpan?]
  · obtain ⟨e, he, hr⟩ := hp.edit hne hv
    refine ⟨e, _, he, hr, iff_of_true (p.replace_keyword hp.token hp.onward hv).1 (.inl ?_)⟩
    simp [hp.visibilitySpan?]

theorem Declaration.visibilityEdit_outlines_iff_marker :
    ∃ d e r, (declarations "@A @interface M {}")[0]? = some d ∧
      d.visibilityEdit .pub "@A @interface M {}" = .ok (some e) ∧
      e.apply "@A @interface M {}" = .ok r ∧
      (declarations r).map outline = [(['M'], .annotationType, .pub)] := by
  have hd : (declarations "@A @interface M {}")[0]? = some
      ⟨"M", .annotationType, .package, none, 3, ⟨0, 18⟩, ⟨14, 15⟩, some ⟨16, 18⟩⟩ := by
    decide +kernel
  have ho : ((declarations "@A @interface M {}").map outline).set 0 (['M'], .annotationType, .pub) =
      [(['M'], .annotationType, .pub)] := by decide +kernel
  obtain ⟨e, r, he, hr, h⟩ := visibilityEdit_outlines_iff (v := .pub) hd (by decide) rfl
  exact ⟨_, e, r, hd, he, hr, (h.2 (.inr (by decide +kernel))).trans ho⟩

/-- The word of a level is lost in the name of an annotation that touches the declaration. -/
theorem Declaration.visibilityEdit_lost :
    ∃ d e r, (declarations "@Documented@interface Marker {}")[0]? = some d ∧
      d.kind = .annotationType ∧ d.visibility ≠ .pub ∧
      d.visibilityEdit .pub "@Documented@interface Marker {}" = .ok (some e) ∧
      e.apply "@Documented@interface Marker {}" = .ok r ∧
      (declarations r).map outline ≠
        ((declarations "@Documented@interface Marker {}").map outline).set 0
          (d.name, d.kind, .pub) := by
  refine ⟨⟨"Marker", .annotationType, .package, none, 11, ⟨0, 31⟩, ⟨22, 28⟩, some ⟨29, 31⟩⟩,
    .insert 11 "public ", "@Documentedpublic @interface Marker {}", ?_⟩
  decide +kernel

end QuickFix
