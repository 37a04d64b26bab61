import QuickFix.Proofs.Source.Relating

/-!
# What leads to a declaration

Before the keyword of a declaration a scan reads annotations and modifiers and keeps them in its
header. `Scanner.Leads s ms s'` says that it goes from `s` to `s'` in this way and reads the modifiers
`ms`.

* `exists_leads`: a declaration is found after a run to the place where its modifiers start, and from
  there by reading them and its keyword;
* `Leads.last_visibility`: the modifier that gives the level is the last one that names a level;
* `run_of_leads`: before related tokens the declaration is found with whatever the header holds.
-/

namespace QuickFix

/-- `d'` is `d` as it is found with the header `h`, at offsets that `R` relates. -/
structure Declaration.FoundWith (R : Nat → Nat → Prop) (h : Source.Header)
    (d d' : Declaration) : Prop where
  name : d'.name = d.name
  kind : d'.kind = d.kind
  visibility : d'.visibility = (h.visibility?.map (·.1)).getD .package
  visibilitySpan? : d'.visibilitySpan? = h.visibility?.map (·.2)
  start : ∀ n ∈ h.start?, d'.span.start = n
  bodySpan? : Option.Rel (Source.spanRel R) d.bodySpan? d'.bodySpan?

namespace Source

variable {R : Nat → Nat → Prop}

/-- Does the text of the token name a level? -/
def Token.namesLevel (k : Token) : Bool := (Visibility.ofKeyword? k.text).isSome

/-! ## What a keyword finds -/

/-- The name, the body and what follows do not depend on the header. -/
theorem declaration?_of_rel {last last' kw : Nat} (kw' : Nat) {h : Header} (h' : Header)
    {kind : ClassKind} {ts us rest : List Token} {d : Declaration} (hl : R last last')
    (hd : declaration? last h kind kw ts = some (d, rest))
    (ht : List.Forall₂ (Token.Rel R) ts us) :
    ∃ d' rest', declaration? last' h' kind kw' us = some (d', rest') ∧ d.FoundWith R h' d' ∧
      List.Forall₂ (Token.Rel R) rest rest' := by
  obtain ⟨name, ts, rfl, hw, rfl, rfl⟩ := declaration?_eq_some hd
  cases ht with
  | cons hk ht =>
    simp only [declaration?, if_pos (hk.kind.symm.trans hw)]
    obtain ⟨hbody, -, hrest⟩ := tailOf_rel hl ht
    refine ⟨_, _, rfl, ⟨(hk.text_eq hw).symm, rfl, rfl, rfl, fun n hn => ?_, hbody⟩, hrest⟩
    simp [Option.mem_def.1 hn]

namespace Scanner

/-- The keyword with which a step completes a declaration: what its kind is, and the tokens after
it. -/
theorem step_eq_some {last : Nat} {s s' : Scanner} {d : Declaration}
    (h : s.step last = (some d, s')) :
    ∃ t ts us kind, s.rest = t :: ts ∧ s' = start s'.rest ∧
      declaration? last s.header kind t.start us = some (d, s'.rest) ∧
      (role s.afterDot t ts = .keyword kind ∧ us = ts ∨
        role s.afterDot t ts = .annotationType ∧ kind = .annotationType ∧ us = ts.tail) := by
  have hf : ∀ {kind kw us}, finish last s.header kind kw us = (some d, s') →
      s' = start s'.rest ∧ declaration? last s.header kind kw us = some (d, s'.rest) := by
    intro kind kw us hf
    unfold finish at hf
    split at hf
    · rename_i hd
      obtain ⟨he, rfl⟩ := Prod.mk.inj hf
      cases he
      exact ⟨rfl, hd⟩
    · cases hf
  unfold step at h
  split at h
  · cases h
  rename_i t ts hr
  cases hrole : role s.afterDot t ts with
  | keyword kind =>
    rw [hrole] at h
    exact ⟨t, ts, ts, kind, hr, (hf h).1, (hf h).2, .inl ⟨hrole, rfl⟩⟩
  | annotationType =>
    rw [hrole] at h
    exact ⟨t, ts, ts.tail, .annotationType, hr, (hf h).1, (hf h).2, .inr ⟨hrole, rfl, rfl⟩⟩
  | statement | annotationUse | modifier | block | other => rw [hrole] at h; cases h

/-- What the declaration of a step has from the header: its level, and where it starts. -/
theorem header_of_step {last : Nat} {s s' : Scanner} {d : Declaration}
    (h : s.step last = (some d, s')) :
    ∃ k ts, s.rest = k :: ts ∧ d.visibility = (s.header.visibility?.map (·.1)).getD .package ∧
      d.visibilitySpan? = s.header.visibility?.map (·.2) ∧
      d.modifierStart = s.header.modifier?.getD k.start ∧
      d.span.start = s.header.start?.getD k.start := by
  obtain ⟨k, ts, us, kind, hr, -, hd, -⟩ := step_eq_some h
  obtain ⟨name, us, rfl, -, -, rfl⟩ := declaration?_eq_some hd
  exact ⟨k, ts, hr, rfl, rfl, rfl, rfl⟩

/-! ## Annotations and modifiers -/

/-- A dot before a token hides keywords and nothing else. -/
theorem role_of_dot {dot dot' : Bool} {t : Token} {ts : List Token} {r : Role}
    (h : role dot t ts = r) (hr : r ≠ .other) (hdot : dot' = dot ∨ dot' = false) :
    role dot' t ts = r := by
  rcases hdot with rfl | rfl
  · exact h
  cases dot with
  | false => exact h
  | true =>
    unfold role at h ⊢
    split at h
    · rename_i hs; rw [if_pos hs]; exact h
    rename_i hs
    rw [if_neg hs]
    split at h
    · rename_i hk; rw [if_pos hk]; exact h
    rename_i hk
    rw [if_neg hk]
    split at h
    · rename_i hm; rw [if_pos hm]; exact h
    rename_i hm
    rw [if_neg hm]
    have hb : t.kind = .openBrace := by
      by_contra hb
      simp [hb] at h
      exact hr h.symm
    simpa [hb] using h

/-- The scan goes from the first state to the second by reading annotations and the modifiers. -/
inductive Leads : Scanner → List Token → Scanner → Prop
  | refl (s : Scanner) : Leads s [] s
  | annotationUse {s s' : Scanner} {t : Token} {ts ms : List Token} :
      s.rest = t :: ts → role s.afterDot t ts = .annotationUse →
      Leads ⟨false, s.header.addAnnotationAt t.start, annotationRest ts⟩ ms s' → Leads s ms s'
  | modifier {s s' : Scanner} {t : Token} {ts ms : List Token} :
      s.rest = t :: ts → role s.afterDot t ts = .modifier →
      Leads ⟨false, s.header.addModifier t, ts⟩ ms s' → Leads s (t :: ms) s'

theorem step_annotationUse {s : Scanner} {t : Token} {ts : List Token} (last : Nat)
    (hr : s.rest = t :: ts) (h : role s.afterDot t ts = .annotationUse) :
    s.step last = (none, ⟨false, s.header.addAnnotationAt t.start, annotationRest ts⟩) := by
  simp only [step, hr, h]

theorem step_modifier {s : Scanner} {t : Token} {ts : List Token} (last : Nat)
    (hr : s.rest = t :: ts) (h : role s.afterDot t ts = .modifier) :
    s.step last = (none, ⟨false, s.header.addModifier t, ts⟩) := by
  simp only [step, hr, h]

/-- A step over anything else forgets the header. -/
theorem step_forgets {s s' : Scanner} {t : Token} {ts : List Token} {last : Nat}
    {d? : Option Declaration} (hr : s.rest = t :: ts) (h : s.step last = (d?, s'))
    (ha : role s.afterDot t ts ≠ .annotationUse) (hm : role s.afterDot t ts ≠ .modifier) :
    s'.header = .empty := by
  have hf : ∀ kind kw us, (finish last s.header kind kw us).2.header = .empty := by
    intro kind kw us
    unfold finish
    split <;> rfl
  have he : s' = (s.step last).2 := by rw [h]
  rw [he]
  simp only [step, hr]
  cases hrole : role s.afterDot t ts with
  | annotationUse => exact absurd hrole ha
  | modifier => exact absurd hrole hm
  | annotationType => exact hf ..
  | keyword kind => exact hf ..
  | statement | block | other => rfl

namespace Leads

variable {s s' : Scanner} {ms : List Token}

theorem runs (last : Nat) (h : Leads s ms s') : Runs last s [] s' := by
  induction h with
  | refl => exact .refl _
  | annotationUse hr hrole _ ih =>
    exact .step (by simp [hr]) (step_annotationUse last hr hrole) ih
  | modifier hr hrole _ ih => exact .step (by simp [hr]) (step_modifier last hr hrole) ih

theorem modifier?_eq (h : Leads s ms s') :
    s'.header.modifier? = s.header.modifier?.or (ms.head?.map (·.start)) := by
  induction h with
  | refl => simp
  | annotationUse _ _ _ ih => exact ih
  | modifier _ _ _ ih => rw [ih]; simp [Header.addModifier]

/-- The header keeps where it starts. -/
theorem start?_of_some {n : Nat} (h : Leads s ms s') (hs : s.header.start? = some n) :
    s'.header.start? = some n := by
  induction h with
  | refl => exact hs
  | annotationUse _ _ _ ih => exact ih (congrArg (Option.or · _) hs)
  | modifier _ _ _ ih => exact ih (congrArg (Option.or · _) hs)

/-- The header keeps the place of the last modifier that names a level. -/
theorem visibilitySpan?_eq (h : Leads s ms s') :
    s'.header.visibility?.map (·.2) = ((ms.filter Token.namesLevel).getLast?.map Token.span).or
      (s.header.visibility?.map (·.2)) := by
  induction h with
  | refl => rfl
  | annotationUse _ _ _ ih => exact ih
  | @modifier s s' t ts ms _ _ _ ih =>
    rw [ih]
    cases hw : Visibility.ofKeyword? t.text with
    | none => simp [Header.addModifier, Token.namesLevel, hw]
    | some v =>
      rw [List.filter_cons_of_pos (by simp [Token.namesLevel, hw]), List.getLast?_cons]
      cases (ms.filter Token.namesLevel).getLast? <;> simp [Header.addModifier, hw]

/-- The last of the modifiers that name a level, if there is one. -/
theorem last_visibility (h : Leads s ms s') :
    (s'.header.visibility? = s.header.visibility? ∧
        ∀ m ∈ ms, Visibility.ofKeyword? m.text = none) ∨
      ∃ ms₁ sw w y v ms₂, Leads s ms₁ sw ∧ sw.rest = w :: y ∧
        role sw.afterDot w y = .modifier ∧ Visibility.ofKeyword? w.text = some v ∧
        Leads ⟨false, sw.header.addModifier w, y⟩ ms₂ s' ∧
        s'.header.visibility? = some (v, w.span) ∧
        ∀ m ∈ ms₂, Visibility.ofKeyword? m.text = none := by
  induction h with
  | refl => exact .inl ⟨rfl, fun m hm => by cases hm⟩
  | annotationUse hr hrole _ ih =>
    rcases ih with ih | ⟨ms₁, sw, w, y, v, ms₂, hl, hrest⟩
    · exact .inl ih
    · exact .inr ⟨ms₁, sw, w, y, v, ms₂, .annotationUse hr hrole hl, hrest⟩
  | @modifier s s' t ts ms hr hrole hl ih =>
    rcases ih with ⟨hv, hms⟩ | ⟨ms₁, sw, w, y, v, ms₂, hl, hrest⟩
    · cases hw : Visibility.ofKeyword? t.text with
      | none =>
        refine .inl ⟨by simpa [Header.addModifier, hw] using hv, fun m hm => ?_⟩
        rcases List.mem_cons.1 hm with rfl | hm
        · exact hw
        · exact hms m hm
      | some v =>
        refine .inr ⟨[], s, t, ts, v, ms, .refl s, hr, hrole, hw, hl, ?_, hms⟩
        simpa [Header.addModifier, hw] using hv
    · exact .inr ⟨t :: ms₁, sw, w, y, v, ms₂, .modifier hr hrole hl, hrest⟩

/-- Related tokens are led through in the same way, whatever the header; its level stays if none of
the modifiers names one. -/
theorem of_rel (h : Leads s ms s') {dot : Bool} (hh : Header) {us : List Token}
    (hdot : dot = s.afterDot ∨ dot = false) (ht : List.Forall₂ (Token.Rel R) s.rest us) :
    ∃ ms' u', Leads ⟨dot, hh, us⟩ ms' u' ∧
      ((∀ m ∈ ms, Visibility.ofKeyword? m.text = none) →
        u'.header.visibility? = hh.visibility?) ∧
      (u'.afterDot = s'.afterDot ∨ u'.afterDot = false) ∧
      List.Forall₂ (Token.Rel R) s'.rest u'.rest := by
  induction h generalizing dot hh us with
  | refl s => exact ⟨[], _, .refl _, fun _ => rfl, hdot, ht⟩
  | annotationUse hr hrole _ ih =>
    rw [hr] at ht
    cases ht with
    | @cons _ l _ us hk ht =>
      obtain ⟨ms', u', hl, hrest⟩ := ih (hh.addAnnotationAt l.start) (.inl rfl)
        (annotationRest_rel ht)
      refine ⟨ms', u', .annotationUse rfl ?_ hl, hrest⟩
      rw [← role_rel hk ht]
      exact role_of_dot hrole (by simp) hdot
  | modifier hr hrole _ ih =>
    rw [hr] at ht
    cases ht with
    | @cons _ l _ us hk ht =>
      obtain ⟨ms', u', hl, hv, hrest⟩ := ih (hh.addModifier l) (.inl rfl) ht
      refine ⟨l :: ms', u', .modifier rfl ?_ hl, fun hms => ?_, hrest⟩
      · rw [← role_rel hk ht]
        exact role_of_dot hrole (by simp) hdot
      · have hw : Visibility.ofKeyword? l.text = none := by
          rw [← hk.text_eq (Role.Fits.of_eq hrole).1]
          exact hms _ List.mem_cons_self
        rw [hv fun m hm => hms m (List.mem_cons_of_mem _ hm)]
        simp [Header.addModifier, hw]

end Leads

/-- A step that completes a declaration does so before related tokens with any header. -/
theorem step_of_rel {last last' : Nat} {s s' : Scanner} {d : Declaration} {dot : Bool}
    (hh : Header) {us : List Token} (hl : R last last') (h : s.step last = (some d, s'))
    (hdot : dot = s.afterDot ∨ dot = false) (ht : List.Forall₂ (Token.Rel R) s.rest us) :
    ∃ d' u', (⟨dot, hh, us⟩ : Scanner).step last' = (some d', u') ∧ d.FoundWith R hh d' ∧
      s'.Rel R u' := by
  obtain ⟨t, ts, us', kind, hr, hs', hd, hrole⟩ := step_eq_some h
  rw [hr] at ht
  cases ht with
  | @cons _ l _ us hk ht =>
    have hstep : ∀ {vs}, List.Forall₂ (Token.Rel R) us' vs →
        (⟨dot, hh, l :: us⟩ : Scanner).step last' = finish last' hh kind l.start vs →
        ∃ d' u', (⟨dot, hh, l :: us⟩ : Scanner).step last' = (some d', u') ∧
          d.FoundWith R hh d' ∧ s'.Rel R u' := by
      intro vs hvs hst
      obtain ⟨d', rest', hd', hfound, hrest⟩ := declaration?_of_rel l.start hh hl hd hvs
      refine ⟨d', start rest', by rw [hst, finish, hd'], hfound, ?_⟩
      rw [hs']
      exact .start hrest
    have hrole' : ∀ {r}, role s.afterDot t ts = r → r ≠ .other → role dot l us = r := by
      intro r hrole hne
      rw [← role_rel hk ht]
      exact role_of_dot hrole hne hdot
    rcases hrole with ⟨hrole, rfl⟩ | ⟨hrole, rfl, rfl⟩
    · exact hstep ht (by simp only [step, hrole' hrole (by simp)])
    · exact hstep (tail_rel ht) (by simp only [step, hrole' hrole (by simp)])

/-- **A declaration is found with whatever the header holds** before tokens related to those that
lead to it, if its modifiers name no level; what follows it is found as before. -/
theorem run_of_leads {last last' : Nat} {s s' s'' : Scanner} {ms : List Token} {d : Declaration}
    (hh : Header) {us : List Token} (hl : R last last') (hm : Leads s ms s')
    (hlevel : ∀ m ∈ ms, Visibility.ofKeyword? m.text = none)
    (hd : s'.step last = (some d, s'')) (ht : List.Forall₂ (Token.Rel R) s.rest us) :
    ∃ d' ds, (⟨false, hh, us⟩ : Scanner).run last' = d' :: ds ∧ d.FoundWith R hh d' ∧
      List.Forall₂ (Declaration.Rel R) (s''.run last) ds := by
  obtain ⟨ms', u', hm', hvis, hdot, hr⟩ := hm.of_rel hh (.inr rfl) ht
  obtain ⟨d', u'', hst, hfound, hrel⟩ := step_of_rel u'.header hl hd hdot hr
  have hu' : u'.rest ≠ [] := fun he => by simp [step, he] at hst
  refine ⟨d', u''.run last', ?_, ⟨hfound.name, hfound.kind, ?_, ?_, fun n hn => ?_,
    hfound.bodySpan?⟩, run_rel hl hrel⟩
  · rw [(hm'.runs last').run_eq, run_step hu' hst]
    rfl
  · rw [hfound.visibility, hvis hlevel]
  · rw [hfound.visibilitySpan?, hvis hlevel]
  · exact hfound.start n (hm'.start?_of_some hn)

/-! ## Where a declaration starts -/

/-- A run finds a declaration at once, by what leads to it, or only after it has forgotten the
header. -/
theorem leads_or_forgets {last i : Nat} {s : Scanner} {d : Declaration}
    (h : (s.run last)[i]? = some d) :
    (i = 0 ∧ ∃ ms s' s'', Leads s ms s' ∧ s'.step last = (some d, s'')) ∨
      ∃ ds s', Runs last s ds s' ∧ s'.header = .empty ∧ s'.rest.length < s.rest.length ∧
        ds.length ≤ i ∧ (s'.run last)[i - ds.length]? = some d := by
  generalize hn : s.rest.length = n
  induction n using Nat.strongRecOn generalizing s with
  | ind n ih =>
    cases hr : s.rest with
    | nil => rw [run_nil hr] at h; cases h
    | cons t ts =>
      have hs : s.rest ≠ [] := by simp [hr]
      obtain ⟨d?, s₁, hst⟩ : ∃ d? s₁, s.step last = (d?, s₁) := ⟨_, _, rfl⟩
      have hlt : s₁.rest.length < s.rest.length := by
        have hl : (s.step last).2.rest.length < s.rest.length := length_step_lt hs
        rwa [hst] at hl
      rw [run_step hs hst] at h
      -- the header is kept: what leads on from the next state leads on from this one
      have keep : d? = none → (∀ {ms s'}, Leads s₁ ms s' → ∃ ms', Leads s ms' s') →
          (i = 0 ∧ ∃ ms s' s'', Leads s ms s' ∧ s'.step last = (some d, s'')) ∨
          ∃ ds s', Runs last s ds s' ∧ s'.header = .empty ∧ s'.rest.length < n ∧
            ds.length ≤ i ∧ (s'.run last)[i - ds.length]? = some d := by
        rintro rfl hlead
        rcases ih _ (hn ▸ hlt) h rfl with ⟨hi, ms, s', s'', hl, hd⟩ | ⟨ds, s', hrun, he, hl, hrest⟩
        · obtain ⟨ms', hl'⟩ := hlead hl
          exact .inl ⟨hi, ms', s', s'', hl', hd⟩
        · exact .inr ⟨_, s', .step hs hst hrun, he, by omega, hrest⟩
      by_cases ha : role s.afterDot t ts = .annotationUse
      · rw [step_annotationUse last hr ha] at hst
        obtain ⟨hd, rfl⟩ := Prod.mk.inj hst
        exact keep hd.symm fun hl => ⟨_, .annotationUse hr ha hl⟩
      by_cases hm : role s.afterDot t ts = .modifier
      · rw [step_modifier last hr hm] at hst
        obtain ⟨hd, rfl⟩ := Prod.mk.inj hst
        exact keep hd.symm fun hl => ⟨_, .modifier hr hm hl⟩
      have he := step_forgets hr hst ha hm
      have hrun : Runs last s d?.toList s₁ := by
        have := Runs.step hs hst (.refl s₁)
        rwa [List.append_nil] at this
      cases d? with
      | none => exact .inr ⟨_, s₁, hrun, he, hn ▸ hlt, Nat.zero_le i, h⟩
      | some d₀ =>
        cases i with
        | zero =>
          obtain rfl : d₀ = d := by simpa using h
          exact .inl ⟨rfl, [], s, s₁, .refl s, hst⟩
        | succ i => exact .inr ⟨_, s₁, hrun, he, hn ▸ hlt, Nat.succ_le_succ (Nat.zero_le i), h⟩

/-- **A declaration is found** after a run to its first modifier or its keyword, and from there by
what leads to it. -/
theorem exists_leads {last i : Nat} {s : Scanner} {d : Declaration}
    (h : (s.run last)[i]? = some d) (hm : s.header.modifier? = none)
    (hv : s.header.visibility? = none) :
    ∃ ds s₁ k x ms s₂ s₃, Runs last s ds s₁ ∧ ds.length = i ∧ s₁.rest = k :: x ∧
      s₁.header.modifier? = none ∧ s₁.header.visibility? = none ∧ Leads s₁ ms s₂ ∧
      s₂.step last = (some d, s₃) ∧ d.modifierStart = k.start ∧
      role s₁.afterDot k x ≠ .annotationUse := by
  generalize hn : s.rest.length = n
  induction n using Nat.strongRecOn generalizing s i with
  | ind n ih =>
    cases hr : s.rest with
    | nil => rw [run_nil hr] at h; cases h
    | cons t ts =>
      have hs : s.rest ≠ [] := by simp [hr]
      by_cases ha : role s.afterDot t ts = .annotationUse
      · have hst := step_annotationUse last hr ha
        rw [run_step hs hst] at h
        have hlt : (annotationRest ts).length < n := by
          rw [← hn, hr]
          exact Nat.lt_succ_of_le (annotationRest_suffix ts).length_le
        obtain ⟨ds, s₁, k, x, ms, s₂, s₃, hrun, hrest⟩ := ih _ hlt h hm hv rfl
        exact ⟨ds, s₁, k, x, ms, s₂, s₃, .step hs hst hrun, hrest⟩
      rcases leads_or_forgets h with ⟨rfl, ms, s₂, s₃, hl, hd⟩ | ⟨ds, s₁, hrun, he, hlt, hi, h₁⟩
      · refine ⟨[], s, t, ts, ms, s₂, s₃, .refl s, rfl, hr, hm, hv, hl, hd, ?_, ha⟩
        obtain ⟨k, _, hr', -, -, hmod, -⟩ := header_of_step hd
        rw [hmod, hl.modifier?_eq, hm]
        cases hl with
        | refl => rw [hr] at hr'; cases hr'; rfl
        | annotationUse hr'' hrole _ => rw [hr] at hr''; cases hr''; exact absurd hrole ha
        | modifier hr'' _ _ => rw [hr] at hr''; cases hr''; rfl
      · obtain ⟨es, s₁', k, x, ms, s₂, s₃, hrun', hlen, hrest⟩ :=
          ih _ (hn ▸ hlt) h₁ (by rw [he]; rfl) (by rw [he]; rfl) rfl
        refine ⟨ds ++ es, s₁', k, x, ms, s₂, s₃, hrun.trans hrun', ?_, hrest⟩
        rw [List.length_append, hlen]
        omega

/-- A declaration starts where its header does, or where the tokens do that lead to it. -/
theorem Leads.start_eq {last : Nat} {s s' s'' : Scanner} {k : Token} {x ms : List Token}
    {d : Declaration} (h : Leads s ms s') (hr : s.rest = k :: x)
    (hd : s'.step last = (some d, s'')) : d.span.start = s.header.start?.getD k.start := by
  obtain ⟨t, _, hr', -, -, -, hstart⟩ := header_of_step hd
  rw [hstart]
  have hor : s.header.start?.or (some k.start) = some (s.header.start?.getD k.start) := by
    cases s.header.start? <;> rfl
  cases h with
  | refl =>
    obtain ⟨rfl, -⟩ := List.cons.inj (hr.symm.trans hr')
    rfl
  | annotationUse hr'' _ hl =>
    obtain ⟨rfl, -⟩ := List.cons.inj (hr.symm.trans hr'')
    rw [hl.start?_of_some hor]
    rfl
  | modifier hr'' _ hl =>
    obtain ⟨rfl, -⟩ := List.cons.inj (hr.symm.trans hr'')
    rw [hl.start?_of_some hor]
    rfl

/-- What leads to a declaration starts with a modifier or a keyword, which is a word unless it is
that of an annotation type. -/
theorem kind_of_leads {last : Nat} {s s' s'' : Scanner} {k : Token} {x ms : List Token}
    {d : Declaration} (hr : s.rest = k :: x) (ha : role s.afterDot k x ≠ .annotationUse)
    (h : Leads s ms s') (hd : s'.step last = (some d, s'')) :
    k.kind = .word ∧ (k.text ∈ modifiers ∨ ∃ kind, keywordKind? k.text = some kind) ∨
      ms = [] ∧ s' = s ∧ role s.afterDot k x = .annotationType ∧ d.kind = .annotationType := by
  cases h with
  | annotationUse hr' hrole _ => rw [hr] at hr'; cases hr'; exact absurd hrole ha
  | modifier hr' hrole _ =>
    rw [hr] at hr'
    cases hr'
    obtain ⟨hk, hm⟩ := Role.Fits.of_eq hrole
    exact .inl ⟨hk, .inl hm⟩
  | refl =>
    obtain ⟨t, ts, us, kind, hr', -, hd', hrole⟩ := step_eq_some hd
    rw [hr] at hr'
    cases hr'
    rcases hrole with ⟨hrole, -⟩ | ⟨hrole, rfl, -⟩
    · obtain ⟨hk, -, hw⟩ := Role.Fits.of_eq hrole
      exact .inl ⟨hk, .inr ⟨kind, hw⟩⟩
    · obtain ⟨_, _, -, -, -, hfound⟩ := declaration?_eq_some hd'
      exact .inr ⟨rfl, rfl, hrole, congrArg Declaration.kind hfound⟩

end Scanner

/-- Each declaration of a text is read from some token of it on. -/
theorem exists_declaration?_of_mem {t : Text} {d : Declaration} (h : d ∈ declarations t) :
    ∃ header kind keyword us rest, us <:+ tokens t ∧
      declaration? (Text.bytes t) header kind keyword us = some (d, rest) := by
  obtain ⟨i, hi⟩ := List.getElem?_of_mem h
  obtain ⟨ds, s₁, _, _, _, s, s', hrun, -, -, -, -, hl, hstep, -⟩ :=
    Scanner.exists_leads hi rfl rfl
  obtain ⟨k, ts, us, kind, hr, -, hd, hus⟩ := Scanner.step_eq_some hstep
  have hsuffix : us <:+ s.rest := by
    rw [hr]
    rcases hus with ⟨-, rfl⟩ | ⟨-, -, rfl⟩
    · exact List.suffix_cons k us
    · exact (List.tail_suffix ts).trans (List.suffix_cons k ts)
  exact ⟨_, _, _, us, _, hsuffix.trans (hrun.trans (hl.runs (Text.bytes t))).suffix, hd⟩

end Source

end QuickFix
