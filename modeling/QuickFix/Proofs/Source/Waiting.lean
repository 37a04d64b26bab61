import QuickFix.Proofs.Source.Leading

/-!
# Words that go to a name

A state that waits for a name (`Scanner.awaitsName`) takes a word that comes next. With an `@` behind
the word the name ends there, and `step_word` says what the state does; only such a state, or one with
nothing before the word, takes the last word before an `@` (`awaitsName_of_step`). Before the `@` alone
the state finds nothing (`runs_of_awaitsName`).
-/

namespace QuickFix.Source

/-! ## Names that end before an `@` -/

theorem dottedName?_word_at {a x : List Token} {w k : Token} (h : nameOpen a = true)
    (hw : w.kind = .word) (hk : k.kind = .at) :
    ∃ n, dottedName? (a ++ w :: k :: x) = some (n, w, k :: x) := by
  obtain ⟨n, hn⟩ := dottedName?_append_word (x := k :: x) h hw
  exact ⟨n, by rw [hn, moreSegments_of_not_dot (by simp [hk])]⟩

theorem annotationRest_word_at {a x : List Token} {w k : Token} (h : nameOpen a = true)
    (hw : w.kind = .word) (hk : k.kind = .at) : annotationRest (a ++ w :: k :: x) = k :: x := by
  obtain ⟨n, hn⟩ := dottedName?_word_at (x := x) h hw hk
  simp only [annotationRest, hn, hk, reduceCtorEq, if_false]

theorem skipName_word_at {a x : List Token} {w k : Token} (h : nameOpen a = true)
    (hw : w.kind = .word) (hk : k.kind = .at) : skipName (a ++ w :: k :: x) = k :: x := by
  obtain ⟨n, hn⟩ := dottedName?_word_at (x := x) h hw hk
  simp only [skipName, hn]

theorem afterStatement_word_at {a x : List Token} {w k : Token}
    (h : nameOpen (skipIf (·.text = "static") a) = true) (hw : w.kind = .word)
    (hs : w.text ∉ signs) (hk : k.kind = .at) : afterStatement (a ++ w :: k :: x) = k :: x := by
  have hstatic : w.text ≠ ("static" : Text) := fun he => hs (by rw [he]; decide)
  have hskip : skipIf (·.text = "static") (a ++ w :: k :: x) =
      skipIf (·.text = "static") a ++ w :: k :: x := by
    cases a with
    | nil =>
      have hd : ¬ decide (w.text = ("static" : Text)) = true := fun h =>
        hstatic (of_decide_eq_true h)
      simp only [List.nil_append, skipIf, if_neg hd]
    | cons t a =>
      simp only [List.cons_append, skipIf]
      split <;> rfl
  have hstar : skipStar (k :: x) = k :: x := by
    cases x with
    | nil => rfl
    | cons l x => simp [skipStar, hk]
  rw [afterStatement, hskip, skipName_word_at h hw hk, hstar]
  simp [skipIf, hk]

/-! ## Words that are left -/

theorem skipName_keeps {a x : List Token} {w : Token} (h : nameOpen a = false)
    (hw : w.kind = .word) : w :: x <:+ skipName (a ++ w :: x) := by
  have hn : skipName (a ++ []) = skipName a ++ [] := by simp
  rw [skipName_change hn (fun k hk => ?_) (.inr h)]
  · exact List.suffix_append _ _
  · obtain rfl : w = k := Option.some.inj hk
    simp [hw]

theorem skipStar_keeps {ts x : List Token} {w : Token} (h : w :: x <:+ ts) (hw : w.kind = .word)
    (hs : w.text ≠ ['*']) : w :: x <:+ skipStar ts := by
  fun_cases skipStar ts with
  | case1 d s ts hd =>
    rcases List.suffix_cons_iff.1 h with he | h
    · cases he; rw [hw] at hd; cases hd.1
    rcases List.suffix_cons_iff.1 h with he | h
    · cases he; exact absurd hd.2 hs
    · exact h
  | case2 => exact h
  | case3 => exact h

theorem skipIf_keeps {p : Token → Bool} {ts x : List Token} {w : Token} (h : w :: x <:+ ts)
    (hp : p w = false) : w :: x <:+ skipIf p ts := by
  fun_cases skipIf p ts with
  | case1 => exact h
  | case2 t ts ht =>
    rcases List.suffix_cons_iff.1 h with he | h
    · cases he; rw [hp] at ht; cases ht
    · exact h
  | case3 => exact h

/-- A statement that reads the word `w` last waits for a name without it. -/
theorem nameOpen_of_afterStatement {a x : List Token} {w : Token} (hw : w.kind = .word)
    (hs : w.text ≠ ['*']) (h : afterStatement (a ++ w :: x) = x) :
    nameOpen (skipIf (·.text = "static") a) = true := by
  refine Bool.not_eq_false _ ▸ fun hn => ?_
  have hskip : skipIf (·.text = "static") (a ++ w :: x) =
      skipIf (·.text = "static") a ++ w :: x := by
    cases a with
    | nil => cases hn
    | cons t a =>
      simp only [List.cons_append, skipIf]
      split <;> rfl
  have hk : w :: x <:+ afterStatement (a ++ w :: x) := by
    rw [afterStatement, hskip]
    exact skipIf_keeps (skipStar_keeps (skipName_keeps hn hw) hw hs) (by simp [hw])
  obtain ⟨b, hb⟩ := hk
  rw [h] at hb
  exact append_cons_ne b w x hb

/-- What closes a bracket last before `x` is of the closing kind. -/
theorem closing?_kind {o c : TokenKind} {n : Nat} {ts rest : List Token} {k : Token}
    (h : closing? o c n ts = some (k, rest)) : k.kind = c := by
  fun_induction closing? o c n ts with
  | case1 => cases h
  | case3 t ts _ hc => cases h; exact hc
  | case2 _ _ _ _ ih | case4 _ _ _ _ _ ih | case5 _ _ _ _ _ ih => exact ih h

theorem eq_of_cons_suffix {a x : List Token} {w k : Token} (h : k :: x <:+ a ++ w :: x) : k = w := by
  have h₁ := List.suffix_of_suffix_length_le h (List.suffix_append a (w :: x)) (Nat.le_refl _)
  exact (List.cons.inj (h₁.eq_of_length rfl)).1

theorem afterClosing_ne {o c : TokenKind} {n : Nat} {a x : List Token} {w : Token}
    (hw : w.kind ≠ c) (hx : x ≠ []) :
    ((closing? o c n (a ++ w :: x)).map (·.2)).getD [] ≠ x := by
  intro h
  cases hc : closing? o c n (a ++ w :: x) with
  | none => rw [hc] at h; exact hx h.symm
  | some p =>
    obtain ⟨k, r⟩ := p
    rw [hc] at h
    obtain rfl : r = x := h
    exact hw (eq_of_cons_suffix (closing?_suffix hc) ▸ closing?_kind hc)

/-- An annotation that reads the word `w` last waits for a name without it. -/
theorem nameOpen_of_annotationRest {a x : List Token} {w : Token} (hw : w.kind = .word)
    (hx : x ≠ []) (h : annotationRest (a ++ w :: x) = x) : nameOpen a = true := by
  refine Bool.not_eq_false _ ▸ fun hn => ?_
  cases hd : dottedName? a with
  | none =>
    rw [annotationRest, dottedName?_change_none (x := []) (by simpa using hd) (.inr hn)] at h
    exact append_cons_ne a w x h
  | some p =>
    obtain ⟨n, l, c⟩ := p
    have hd' : dottedName? (a ++ w :: x) = some (n, l, c ++ w :: x) := by
      refine dottedName?_change (x := []) (by simpa using hd) (fun k hk => ?_) (.inr hn)
      obtain rfl : w = k := Option.some.inj hk
      simp [hw]
    rw [annotationRest, hd'] at h
    cases c with
    | nil => simp only [List.nil_append, hw, reduceCtorEq, if_false] at h; exact append_cons_ne [] w x h
    | cons t c =>
      simp only [List.cons_append] at h
      split at h
      · exact afterClosing_ne (by simp [hw]) hx h
      · exact append_cons_ne (t :: c) w x h

namespace Scanner

/-- The role of a token in a state that waits for a name. -/
theorem role_word {dot : Bool} {t w : Token} {ts x : List Token} (hs : w.text ∉ signs) :
    role dot t (ts ++ w :: x) = role dot t ts := by
  cases ts with
  | cons i ts => exact role_congr fun _ => Iff.rfl
  | nil =>
    refine role_congr fun _ => ⟨fun h => ?_, fun h => by cases h⟩
    have hw : w.text = ("interface" : Text) := Option.some.inj h
    exact absurd (by rw [hw]; decide) hs

/-- **A state that waits for a name** takes the word `w`, and stops before an `@`: the name is that
of a package or import, of an annotation, or of a declaration. -/
theorem step_word {q : Scanner} {w k : Token} {x : List Token} (last : Nat) (hq : q.rest ≠ [])
    (ha : q.awaitsName = true) (hw : w.kind = .word) (hs : w.text ∉ signs) (hk : k.kind = .at) :
    ∃ t ts, q.rest = t :: ts ∧
      (role q.afterDot t ts = .statement ∧
          (q.put (w :: k :: x)).step last = (none, start (k :: x)) ∨
        role q.afterDot t ts = .annotationUse ∧ (q.put (w :: k :: x)).step last =
          (none, ⟨false, q.header.addAnnotationAt t.start, k :: x⟩) ∨
        ∃ kind, (role q.afterDot t ts = .annotationType ∧ kind = .annotationType ∨
            role q.afterDot t ts = .keyword kind) ∧ (q.put (w :: k :: x)).step last =
          finish last q.header kind t.start (w :: k :: x)) := by
  obtain ⟨dot, hh, _ | ⟨t, ts⟩⟩ := q
  · exact absurd rfl hq
  refine ⟨t, ts, rfl, ?_⟩
  have hr : role dot t (ts ++ w :: k :: x) = role dot t ts := role_word hs
  simp only [awaitsName] at ha
  simp only [put, List.cons_append, step, hr]
  cases hrole : role dot t ts with
  | statement =>
    simp only [hrole] at ha ⊢
    rw [afterStatement_word_at ha hw hs hk]
    simp
  | annotationUse =>
    simp only [hrole] at ha ⊢
    rw [annotationRest_word_at ha hw hk]
    simp
  | annotationType =>
    simp only [hrole] at ha ⊢
    have hi := (Role.Fits.of_eq hrole).2
    cases ts with
    | nil => cases hi
    | cons i ts =>
      obtain rfl : ts = [] := by simpa using ha
      exact .inr (.inr ⟨.annotationType, .inl ⟨trivial, rfl⟩, rfl⟩)
  | keyword kind =>
    simp only [hrole] at ha ⊢
    obtain rfl : ts = [] := by simpa using ha
    exact .inr (.inr ⟨kind, .inr rfl, rfl⟩)
  | modifier | block | other => simp [hrole] at ha

theorem headerEnd?_kind {n : Nat} {ts rest : List Token} {k : Token}
    (h : headerEnd? n ts = some (k, rest)) : k.kind = .openBrace ∨ k.kind = .semicolon := by
  fun_induction headerEnd? n ts with
  | case1 => cases h
  | case4 _ t ts _ _ he => cases h; exact he.2
  | case2 _ _ _ _ ih | case3 _ _ _ _ _ ih | case5 _ _ _ _ _ _ ih => exact ih h

/-- What follows a name does not end with a word before the tokens `x`. -/
theorem tailOf_ne {last : Nat} {a x : List Token} {w : Token} (hw : w.kind = .word)
    (hx : x ≠ []) : (tailOf last (a ++ w :: x)).rest ≠ x := by
  intro h
  unfold tailOf at h
  split at h
  · exact hx h.symm
  · rename_i t us he
    split at h
    · split at h
      · rename_i c rest hc
        obtain rfl : rest = x := h
        have hs := (closing?_suffix hc).trans ((List.suffix_cons t us).trans (headerEnd?_suffix he))
        rw [← eq_of_cons_suffix hs, closing?_kind hc] at hw
        cases hw
      · exact hx h.symm
    · obtain rfl : us = x := h
      rw [← eq_of_cons_suffix (headerEnd?_suffix he)] at hw
      rcases headerEnd?_kind he with hk | hk
      · rw [hk] at hw; cases hw
      · rw [hk] at hw; cases hw

/-- What follows a name takes a token at least. -/
theorem tailOf_ne_self {last : Nat} {x : List Token} (hx : x ≠ []) : (tailOf last x).rest ≠ x := by
  intro h
  unfold tailOf at h
  split at h
  · exact hx h.symm
  · rename_i t us he
    obtain ⟨b, hb⟩ := headerEnd?_suffix he
    split at h
    · split at h
      · rename_i c rest hc
        obtain rfl : rest = x := h
        obtain ⟨b', hb'⟩ := (closing?_suffix hc).trans ((List.suffix_cons t us).trans ⟨b, hb⟩)
        exact append_cons_ne b' c _ hb'
      · exact hx h.symm
    · obtain rfl : us = x := h
      exact append_cons_ne b t _ hb

/-- A declaration does not end with a word before the tokens `x`. -/
theorem finish_ne {last kw : Nat} {hh : Header} {kind : ClassKind} {a x : List Token} {w : Token}
    (hw : w.kind = .word) (hx : x ≠ []) : (finish last hh kind kw (a ++ w :: x)).2.rest ≠ x := by
  intro h
  unfold finish at h
  split at h
  · rename_i d rest hd
    obtain rfl : rest = x := h
    obtain ⟨name, us, hts, -, hrest, -⟩ := declaration?_eq_some hd
    cases a with
    | nil =>
      obtain ⟨rfl, rfl⟩ := List.cons.inj hts
      exact tailOf_ne_self hx hrest.symm
    | cons name a =>
      obtain ⟨rfl, rfl⟩ := List.cons.inj hts
      exact tailOf_ne hw hx hrest.symm
  · exact append_cons_ne a w x h

/-- A keyword that takes nothing finds nothing. -/
theorem finish_eq_none {last kw : Nat} {hh : Header} {kind : ClassKind} {x : List Token}
    {d? : Option Declaration} {s' : Scanner} (hx : x ≠ [])
    (h : finish last hh kind kw x = (d?, s')) (hs' : s'.rest = x) : d? = none := by
  unfold finish at h
  split at h
  · rename_i d rest hd
    obtain ⟨-, rfl⟩ := Prod.mk.inj h
    obtain rfl : rest = x := hs'
    obtain ⟨t, ts, rfl⟩ := List.exists_cons_of_ne_nil hx
    cases eq_nil_of_append_suffix (b := [t]) (declaration?_suffix hd)
  · exact (Prod.mk.inj h).1.symm

/-- **A state that takes the word `w` last** before the tokens `x`, and has something before it,
waits for a name there; it finds nothing, and the word is in a statement or an annotation. -/
theorem awaitsName_of_step {q s' : Scanner} {w : Token} {x : List Token} {last : Nat}
    {d? : Option Declaration} (hq : q.rest ≠ []) (hw : w.kind = .word) (hs : w.text ≠ ['*'])
    (hx : x ≠ []) (h : (q.put (w :: x)).step last = (d?, s')) (hs' : s'.rest = x) :
    q.awaitsName = true ∧ d? = none ∧ ∃ t ts, q.rest = t :: ts ∧
      (role q.afterDot t ts = .statement ∨ role q.afterDot t ts = .annotationUse) := by
  obtain ⟨dot, hh, _ | ⟨t, ts⟩⟩ := q
  · exact absurd rfl hq
  simp only [put, List.cons_append, step] at h
  have hsame : t.kind ≠ .at ∨ ts = [] ∧ w.text ≠ ("interface" : Text) ∨ ts ≠ [] →
      role dot t ts = role dot t (ts ++ w :: x) := by
    rintro (hk | ⟨rfl, hi⟩ | hts)
    · exact role_congr fun h => absurd h hk
    · refine role_congr fun _ => ⟨fun h => (by cases h), fun h => absurd (Option.some.inj h) hi⟩
    · obtain ⟨i, ts, rfl⟩ := List.exists_cons_of_ne_nil hts
      exact role_congr fun _ => Iff.rfl
  have hrest : ∀ {s₁ : Scanner} {d₁? : Option Declaration}, (d₁?, s₁) = (d?, s') → s₁.rest = x :=
    fun h => (Prod.mk.inj h).2 ▸ hs'
  cases hrole : role dot t (ts ++ w :: x) with
  | statement =>
    simp only [hrole] at h
    obtain ⟨hk, -⟩ := Role.Fits.of_eq hrole
    have hr := (hsame (.inl (by simp [hk]))).trans hrole
    refine ⟨?_, (Prod.mk.inj h).1.symm, t, ts, rfl, .inl hr⟩
    simp only [awaitsName, hr]
    exact nameOpen_of_afterStatement hw hs (hrest h)
  | annotationUse =>
    simp only [hrole] at h
    obtain ⟨-, hi⟩ := Role.Fits.of_eq hrole
    have hr : role dot t ts = .annotationUse := by
      refine (hsame ?_).trans hrole
      cases ts with
      | nil => exact .inr (.inl ⟨rfl, fun he => hi (congrArg some he)⟩)
      | cons i ts => exact .inr (.inr (List.cons_ne_nil i ts))
    refine ⟨?_, (Prod.mk.inj h).1.symm, t, ts, rfl, .inr hr⟩
    simp only [awaitsName, hr]
    exact nameOpen_of_annotationRest hw hx (hrest h)
  | annotationType =>
    simp only [hrole] at h
    cases ts with
    | nil =>
      have hr : role dot t [] = .annotationUse := by
        obtain ⟨hk, -⟩ := Role.Fits.of_eq hrole
        simp [role, Token.isWord, hk]
      exact ⟨by simp only [awaitsName, hr]; rfl, finish_eq_none hx h hs', t, [], rfl, .inr hr⟩
    | cons i ts => exact absurd (hrest h) (finish_ne hw hx)
  | modifier => simp only [hrole] at h; exact absurd (hrest h) (append_cons_ne ts w x)
  | keyword kind => simp only [hrole] at h; exact absurd (hrest h) (finish_ne hw hx)
  | block => simp only [hrole] at h; exact absurd (hrest h) (afterClosing_ne (by simp [hw]) hx)
  | other => simp only [hrole] at h; exact absurd (hrest h) (append_cons_ne ts w x)

/-! ## What is left of an unfinished name -/

/-- At most a dot. -/
def Trailing (ts : List Token) : Prop := ts = [] ∨ ∃ k, ts = [k] ∧ k.kind = .dot

theorem skipName_trailing {ts : List Token} (h : nameOpen ts = true) : Trailing (skipName ts) := by
  cases ts with
  | nil => exact .inl rfl
  | cons w ts =>
    simp only [nameOpen, Bool.and_eq_true, decide_eq_true_eq] at h
    obtain ⟨hw, hm⟩ := h
    simp only [skipName, dottedName?, if_pos hw]
    obtain ⟨k, hk, hd⟩ := List.map_eq_singleton_iff.1 hm
    exact .inr ⟨k, hk, hd⟩

theorem annotationRest_trailing {ts : List Token} (h : nameOpen ts = true) :
    Trailing (annotationRest ts) := by
  have ht := skipName_trailing h
  cases ts with
  | nil => exact .inl rfl
  | cons w ts =>
    simp only [nameOpen, Bool.and_eq_true, decide_eq_true_eq] at h
    simp only [skipName, annotationRest, dottedName?, if_pos h.1] at ht ⊢
    generalize moreSegments w.text w ts = m at ht ⊢
    obtain ⟨n, l, r⟩ := m
    rcases ht with ht | ⟨k, ht, hk⟩
    · obtain rfl : r = [] := ht
      exact .inl rfl
    · obtain rfl : r = [k] := ht
      simp only [hk, reduceCtorEq, if_false]
      exact .inr ⟨k, rfl, hk⟩

theorem afterStatement_trailing {ts : List Token}
    (h : nameOpen (skipIf (·.text = "static") ts) = true) : Trailing (afterStatement ts) := by
  unfold afterStatement
  rcases skipName_trailing h with h | ⟨k, h, hk⟩
  · rw [h]; exact .inl rfl
  · rw [h]
    simp only [skipStar, skipIf, hk, reduceCtorEq, decide_false, if_false]
    exact .inr ⟨k, rfl, hk⟩

/-- A state that waits for a name reads all there is, or all but a dot, and finds nothing. -/
theorem step_of_awaitsName {q : Scanner} (last : Nat) (ha : q.awaitsName = true) :
    ∃ s, q.step last = (none, s) ∧ Trailing s.rest := by
  obtain ⟨dot, hh, _ | ⟨t, ts⟩⟩ := q
  · cases ha
  simp only [awaitsName] at ha
  simp only [step]
  cases hrole : role dot t ts with
  | statement =>
    simp only [hrole] at ha ⊢
    exact ⟨_, rfl, afterStatement_trailing ha⟩
  | annotationUse =>
    simp only [hrole] at ha ⊢
    exact ⟨_, rfl, annotationRest_trailing ha⟩
  | annotationType =>
    simp only [hrole] at ha ⊢
    rw [List.isEmpty_iff.1 ha]
    exact ⟨_, rfl, .inl rfl⟩
  | keyword kind =>
    simp only [hrole] at ha ⊢
    rw [List.isEmpty_iff.1 ha]
    exact ⟨_, rfl, .inl rfl⟩
  | modifier | block | other => simp [hrole] at ha

theorem runs_of_rest_eq_nil {s s' : Scanner} {x : List Token} {last : Nat}
    {ds : List Declaration} (h : Runs last (s.put x) ds (s'.put x)) (hs : s.rest = []) :
    ds = [] := by
  rcases h.eq_or_step with ⟨hds, -⟩ | ⟨d?, s₁, es, hr, hst, h', -⟩
  · exact hds
  · have hl := h'.suffix.length_le
    have hl' := (step_rest_suffix hr hst).length_le
    cases x with
    | nil => exact absurd (by simp [hs]) hr
    | cons k x => simp [hs] at hl hl'; omega

theorem runs_of_trailing {s s' : Scanner} {x : List Token} {last : Nat} {ds : List Declaration}
    (h : Runs last (s.put x) ds (s'.put x)) (hs : Trailing s.rest) : ds = [] := by
  rcases hs with hs | ⟨k, hs, hk⟩
  · exact runs_of_rest_eq_nil h hs
  · rcases h.eq_or_step with ⟨hds, -⟩ | ⟨d?, s₁, es, hr, hst, h', rfl⟩
    · exact hds
    · have hst' : (s.put x).step last = (none, (⟨true, .empty, []⟩ : Scanner).put x) := by
        have hrole : role s.afterDot k x = .other := by simp [role, Token.isWord, hk]
        simp only [step, put, hs, List.singleton_append, hrole, hk, decide_true, List.nil_append]
      rw [hst'] at hst
      obtain ⟨rfl, rfl⟩ := Prod.mk.inj hst
      rw [runs_of_rest_eq_nil h' rfl]
      rfl

/-- A state that waits for a name finds nothing up to the tokens `x`. -/
theorem runs_of_awaitsName {q s' : Scanner} {x : List Token} {last : Nat} {ds : List Declaration}
    (hx : x ≠ []) (ha : q.awaitsName = true) (h : Runs last (q.put x) ds (s'.put x)) :
    ds = [] := by
  rcases h.eq_or_step with ⟨hds, -⟩ | ⟨d?, s₁, es, hr, hst, h', rfl⟩
  · exact hds
  · have hq : q.rest ≠ [] := by rintro he; simp [awaitsName, he] at ha
    obtain ⟨s₁, rfl⟩ := exists_eq_put ((List.suffix_append s'.rest x).trans h'.suffix)
    obtain ⟨s, hs, ht⟩ := step_of_awaitsName 0 ha
    rw [Runs.step_alone hq hx hst] at hs
    obtain ⟨rfl, rfl⟩ := Prod.mk.inj hs
    rw [runs_of_trailing h' ht]
    rfl

end Scanner

end QuickFix.Source
