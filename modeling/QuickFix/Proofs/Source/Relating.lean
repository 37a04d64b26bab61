import Mathlib.Data.List.Forall2
import QuickFix.Proofs.Source.Scanning

/-!
# What a scan does not look at

The scan for declarations looks at the kinds of tokens and at their texts, not at their offsets, nor
at what literals say. `Token.Rel R` relates two tokens that are alike but for that, with offsets
related by `R`; every reader takes related tokens to related results, and so `Scanner.run_rel`: scans
of related tokens find related declarations.
-/

namespace QuickFix

namespace Source

variable {R : Nat → Nat → Prop}

/-- The ends of two stretches are related. -/
def spanRel (R : Nat → Nat → Prop) (s t : Span) : Prop := R s.start t.start ∧ R s.stop t.stop

/-- The tokens are alike but for their offsets, which are related, and for what a literal says. -/
structure Token.Rel (R : Nat → Nat → Prop) (k l : Token) : Prop where
  kind : k.kind = l.kind
  text : k.text = l.text ∨ k.kind = .literal ∧ k.text ∉ signs ∧ l.text ∉ signs
  start : R k.start l.start
  stop : R k.stop l.stop

namespace Token.Rel

variable {k l : Token}

theorem span (h : Token.Rel R k l) : spanRel R k.span l.span := ⟨h.start, h.stop⟩

theorem text_eq (h : Token.Rel R k l) (hk : k.kind = .word) : k.text = l.text := by
  rcases h.text with he | ⟨hl, -⟩
  · exact he
  · rw [hk] at hl; cases hl

theorem text_iff (h : Token.Rel R k l) {s : Text} (hs : s ∈ signs) : k.text = s ↔ l.text = s := by
  rcases h.text with he | ⟨-, hk, hl⟩
  · rw [he]
  · exact ⟨fun he => absurd (he ▸ hs) hk, fun he => absurd (he ▸ hs) hl⟩

theorem isWord (h : Token.Rel R k l) (s : Text) : k.isWord s = l.isWord s := by
  unfold Token.isWord
  rw [← h.kind]
  by_cases hk : k.kind = .word
  · rw [h.text_eq hk]
  · simp [hk]

end Token.Rel

/-- The tokens of the same pieces at two places. -/
theorem place_rel {R : Nat → Nat → Prop} {m n : Nat} (hR : ∀ i, R (m + i) (n + i))
    (ps : List Piece) : List.Forall₂ (Token.Rel R) (place m ps) (place n ps) := by
  induction ps generalizing m n with
  | nil => exact .nil
  | cons p ps ih =>
    have hrest : ∀ i, R (m + Text.bytes p.text + i) (n + Text.bytes p.text + i) := by
      intro i
      rw [Nat.add_assoc, Nat.add_assoc]
      exact hR _
    simp only [place]
    split
    · exact .cons ⟨rfl, .inl rfl, hR 0, hR _⟩ (ih hrest)
    · exact ih hrest

/-! ## Readers -/

/-- A dotted name and what follows it. -/
def nameRel (R : Nat → Nat → Prop) (p q : Text × Token × List Token) : Prop :=
  p.1 = q.1 ∧ Token.Rel R p.2.1 q.2.1 ∧ List.Forall₂ (Token.Rel R) p.2.2 q.2.2

/-- A token that closes something and what follows it. -/
def closeRel (R : Nat → Nat → Prop) (p q : Token × List Token) : Prop :=
  Token.Rel R p.1 q.1 ∧ List.Forall₂ (Token.Rel R) p.2 q.2

theorem moreSegments_rel {name : Text} {last last' : Token} {ts us : List Token}
    (hl : Token.Rel R last last') (h : List.Forall₂ (Token.Rel R) ts us) :
    nameRel R (moreSegments name last ts) (moreSegments name last' us) := by
  fun_induction moreSegments name last ts generalizing last' us with
  | case1 name last d w ts hd ih =>
    cases h with
    | @cons _ d' _ _ hd' h =>
    cases h with
    | @cons _ w' _ us hw' h =>
    have hd'' : d'.kind = .dot ∧ w'.kind = .word := by rwa [← hd'.kind, ← hw'.kind]
    simp only [moreSegments, if_pos hd'']
    rw [← hw'.text_eq hd.2]
    exact ih hw' h
  | case2 name last d w ts hd =>
    cases h with
    | @cons _ d' _ _ hd' h =>
    cases h with
    | @cons _ w' _ us hw' h =>
    have hd'' : ¬(d'.kind = .dot ∧ w'.kind = .word) := by rwa [← hd'.kind, ← hw'.kind]
    simp only [moreSegments, if_neg hd'']
    exact ⟨rfl, hl, .cons hd' (.cons hw' h)⟩
  | case3 name last ts hts =>
    have hus : moreSegments name last' us = (name, last', us) := by
      cases h with
      | nil => rfl
      | cons hd h =>
        cases h with
        | nil => rfl
        | cons hw h => exact (hts _ _ _ rfl).elim
    rw [hus]
    exact ⟨rfl, hl, h⟩

theorem dottedName?_rel {ts us : List Token} (h : List.Forall₂ (Token.Rel R) ts us) :
    Option.Rel (nameRel R) (dottedName? ts) (dottedName? us) := by
  cases h with
  | nil => exact .none
  | cons hk h =>
    simp only [dottedName?, ← hk.kind]
    split
    · rename_i hw
      rw [← hk.text_eq hw]
      exact .some (moreSegments_rel hk h)
    · exact .none

theorem closing?_rel {o c : TokenKind} {n : Nat} {ts us : List Token}
    (h : List.Forall₂ (Token.Rel R) ts us) :
    Option.Rel (closeRel R) (closing? o c n ts) (closing? o c n us) := by
  induction h generalizing n with
  | nil => exact .none
  | cons hk h ih =>
    simp only [closing?, ← hk.kind]
    split
    · exact ih
    split
    · cases n with
      | zero => exact .some ⟨hk, h⟩
      | succ n => exact ih
    · exact ih

theorem afterClosing_rel {o c : TokenKind} {n : Nat} {ts us : List Token}
    (h : List.Forall₂ (Token.Rel R) ts us) :
    List.Forall₂ (Token.Rel R) (((closing? o c n ts).map (·.2)).getD [])
      (((closing? o c n us).map (·.2)).getD []) := by
  have hr : Option.Rel (closeRel R) (closing? o c n ts) (closing? o c n us) := closing?_rel h
  generalize closing? o c n ts = p, closing? o c n us = q at hr
  cases hr with
  | some h => exact h.2
  | none => exact .nil

theorem headerEnd?_rel {n : Nat} {ts us : List Token} (h : List.Forall₂ (Token.Rel R) ts us) :
    Option.Rel (closeRel R) (headerEnd? n ts) (headerEnd? n us) := by
  induction h generalizing n with
  | nil => exact .none
  | cons hk h ih =>
    simp only [headerEnd?, ← hk.kind]
    split
    · exact ih
    split
    · exact ih
    split
    · exact .some ⟨hk, h⟩
    · exact ih

theorem annotationRest_rel {ts us : List Token} (h : List.Forall₂ (Token.Rel R) ts us) :
    List.Forall₂ (Token.Rel R) (annotationRest ts) (annotationRest us) := by
  unfold annotationRest
  have hn := dottedName?_rel h
  generalize dottedName? ts = p, dottedName? us = q at hn
  cases hn with
  | none => exact h
  | @some p q hn =>
    obtain ⟨n, l, r⟩ := p
    obtain ⟨n', l', r'⟩ := q
    obtain ⟨-, -, hr⟩ := hn
    cases hr with
    | nil => exact .nil
    | cons hk hr =>
      simp only [← hk.kind]
      split
      · exact afterClosing_rel hr
      · exact .cons hk hr

theorem skipIf_rel {p : Token → Bool} {ts us : List Token}
    (hp : ∀ k l, Token.Rel R k l → p k = p l) (h : List.Forall₂ (Token.Rel R) ts us) :
    List.Forall₂ (Token.Rel R) (skipIf p ts) (skipIf p us) := by
  cases h with
  | nil => exact .nil
  | cons hk h =>
    simp only [skipIf, hp _ _ hk]
    split
    · exact h
    · exact .cons hk h

theorem skipName_rel {ts us : List Token} (h : List.Forall₂ (Token.Rel R) ts us) :
    List.Forall₂ (Token.Rel R) (skipName ts) (skipName us) := by
  unfold skipName
  have hn := dottedName?_rel h
  generalize dottedName? ts = p, dottedName? us = q at hn
  cases hn with
  | none => exact h
  | some hn => exact hn.2.2

theorem skipStar_rel {ts us : List Token} (h : List.Forall₂ (Token.Rel R) ts us) :
    List.Forall₂ (Token.Rel R) (skipStar ts) (skipStar us) := by
  match h with
  | .nil => exact .nil
  | .cons hd .nil => exact .cons hd .nil
  | .cons hd (.cons hs h) =>
    have hstar : ['*'] ∈ signs := by decide
    simp only [skipStar, hd.kind, hs.text_iff hstar]
    split
    · exact h
    · exact .cons hd (.cons hs h)

theorem afterStatement_rel {ts us : List Token} (h : List.Forall₂ (Token.Rel R) ts us) :
    List.Forall₂ (Token.Rel R) (afterStatement ts) (afterStatement us) := by
  have hstatic : ("static" : Text) ∈ signs := by decide
  have h₁ := skipIf_rel (p := (·.text = "static"))
    (fun k l hk => decide_eq_decide.2 (hk.text_iff hstatic)) h
  exact skipIf_rel (fun k l hk => by rw [hk.kind]) (skipStar_rel (skipName_rel h₁))

/-! ## Declarations -/

/-- Headers that differ in offsets only. -/
structure Header.Rel (R : Nat → Nat → Prop) (h h' : Header) : Prop where
  start? : Option.Rel R h.start? h'.start?
  modifier? : Option.Rel R h.modifier? h'.modifier?
  visibility? : Option.Rel (fun p q => p.1 = q.1 ∧ spanRel R p.2 q.2) h.visibility? h'.visibility?

end Source

/-- Declarations that differ in offsets only. -/
structure Declaration.Rel (R : Nat → Nat → Prop) (d d' : Declaration) : Prop where
  name : d.name = d'.name
  kind : d.kind = d'.kind
  visibility : d.visibility = d'.visibility
  visibilitySpan? : Option.Rel (Source.spanRel R) d.visibilitySpan? d'.visibilitySpan?
  modifierStart : R d.modifierStart d'.modifierStart
  span : Source.spanRel R d.span d'.span
  nameSpan : Source.spanRel R d.nameSpan d'.nameSpan
  bodySpan? : Option.Rel (Source.spanRel R) d.bodySpan? d'.bodySpan?

namespace Source

variable {R : Nat → Nat → Prop}

theorem or_rel {α β : Type} {r : α → β → Prop} {a c : Option α} {b d : Option β}
    (h : Option.Rel r a b) (h' : Option.Rel r c d) : Option.Rel r (a.or c) (b.or d) := by
  cases h with
  | some h => exact .some h
  | none => exact h'

theorem getD_rel {α β : Type} {r : α → β → Prop} {a : Option α} {b : Option β} {x : α} {y : β}
    (h : Option.Rel r a b) (h' : r x y) : r (a.getD x) (b.getD y) := by
  cases h with
  | some h => exact h
  | none => exact h'

theorem toList_rel {α β : Type} {r : α → β → Prop} {a : Option α} {b : Option β}
    (h : Option.Rel r a b) : List.Forall₂ r a.toList b.toList := by
  cases h with
  | some h => exact .cons h .nil
  | none => exact .nil

theorem tail_rel {ts us : List Token} (h : List.Forall₂ (Token.Rel R) ts us) :
    List.Forall₂ (Token.Rel R) ts.tail us.tail := by
  cases h with
  | nil => exact .nil
  | cons _ h => exact h

theorem map_rel {α β γ δ : Type} {r : α → β → Prop} {r' : γ → δ → Prop} {f : α → γ} {g : β → δ}
    {a : Option α} {b : Option β} (hf : ∀ x y, r x y → r' (f x) (g y)) (h : Option.Rel r a b) :
    Option.Rel r' (a.map f) (b.map g) := by
  cases h with
  | some h => exact .some (hf _ _ h)
  | none => exact .none

theorem Header.Rel.empty : Header.Rel R .empty .empty := ⟨.none, .none, .none⟩

theorem Header.Rel.addAnnotationAt {h h' : Header} {m n : Nat} (hh : Header.Rel R h h')
    (hn : R m n) : Header.Rel R (h.addAnnotationAt m) (h'.addAnnotationAt n) :=
  ⟨or_rel hh.start? (.some hn), hh.modifier?, hh.visibility?⟩

theorem Header.Rel.addModifier {h h' : Header} {k l : Token} (hh : Header.Rel R h h')
    (hk : Token.Rel R k l) (hw : k.kind = .word) :
    Header.Rel R (h.addModifier k) (h'.addModifier l) := by
  refine ⟨or_rel hh.start? (.some hk.start), or_rel hh.modifier? (.some hk.start), ?_⟩
  refine or_rel ?_ hh.visibility?
  rw [hk.text_eq hw]
  cases Visibility.ofKeyword? l.text with
  | none => exact .none
  | some v => exact .some ⟨rfl, hk.span⟩

theorem tailOf_rel {last last' : Nat} {ts us : List Token} (hl : R last last')
    (h : List.Forall₂ (Token.Rel R) ts us) :
    Option.Rel (spanRel R) (tailOf last ts).body? (tailOf last' us).body? ∧
      R (tailOf last ts).stop (tailOf last' us).stop ∧
        List.Forall₂ (Token.Rel R) (tailOf last ts).rest (tailOf last' us).rest := by
  unfold tailOf
  have he : Option.Rel (closeRel R) (headerEnd? 0 ts) (headerEnd? 0 us) := headerEnd?_rel h
  generalize headerEnd? 0 ts = p, headerEnd? 0 us = q at he
  cases he with
  | none => exact ⟨.none, hl, .nil⟩
  | @some p q he =>
    obtain ⟨hk, hr⟩ := he
    simp only [← hk.kind]
    split
    · have hc : Option.Rel (closeRel R) (closing? .openBrace .closeBrace 0 p.2)
          (closing? .openBrace .closeBrace 0 q.2) := closing?_rel hr
      generalize closing? .openBrace .closeBrace 0 p.2 = p', closing? .openBrace .closeBrace 0 q.2 =
        q' at hc
      cases hc with
      | none => exact ⟨.some ⟨hk.start, hl⟩, hl, .nil⟩
      | some hc => exact ⟨.some ⟨hk.start, hc.1.stop⟩, hc.1.stop, hc.2⟩
    · exact ⟨.none, hk.stop, hr⟩

theorem declaration?_rel {last last' kw kw' : Nat} {h h' : Header} {kind : ClassKind}
    {ts us : List Token} (hl : R last last') (hh : Header.Rel R h h') (hkw : R kw kw')
    (ht : List.Forall₂ (Token.Rel R) ts us) :
    Option.Rel (fun p q => p.1.Rel R q.1 ∧ List.Forall₂ (Token.Rel R) p.2 q.2)
      (declaration? last h kind kw ts) (declaration? last' h' kind kw' us) := by
  cases ht with
  | nil => exact .none
  | cons hk ht =>
    simp only [declaration?, ← hk.kind]
    split
    · rename_i hw
      obtain ⟨hbody, hstop, hrest⟩ := tailOf_rel hl ht
      refine .some ⟨⟨hk.text_eq hw, rfl, ?_, ?_, getD_rel hh.modifier? hkw,
        ⟨getD_rel hh.start? hkw, hstop⟩, hk.span, hbody⟩, hrest⟩
      · exact getD_rel (r := Eq) (map_rel (fun _ _ hv => hv.1) hh.visibility?) rfl
      · exact map_rel (fun _ _ hv => hv.2) hh.visibility?
    · exact .none

theorem role_rel {dot : Bool} {k l : Token} {ts us : List Token} (hk : Token.Rel R k l)
    (h : List.Forall₂ (Token.Rel R) ts us) : role dot k ts = role dot l us := by
  have hi : ts.head?.map (·.text) = some ("interface" : Text) ↔
      us.head?.map (·.text) = some ("interface" : Text) := by
    cases h with
    | nil => rfl
    | cons hi _ =>
      have hs : ("interface" : Text) ∈ signs := by decide
      simpa using hi.text_iff hs
  unfold role
  simp only [hk.isWord, hi, ← hk.kind]
  by_cases hw : k.kind = .word
  · rw [hk.text_eq hw]
  · simp only [hw, false_and, if_false]

namespace Scanner

/-- States that differ in offsets and in what literals say only. -/
structure Rel (R : Nat → Nat → Prop) (s s' : Scanner) : Prop where
  afterDot : s.afterDot = s'.afterDot
  header : s.header.Rel R s'.header
  rest : List.Forall₂ (Token.Rel R) s.rest s'.rest

theorem Rel.start {ts us : List Token} (h : List.Forall₂ (Token.Rel R) ts us) :
    (start ts).Rel R (start us) := ⟨rfl, .empty, h⟩

/-- What a step finds, and the state after it. -/
def stepRel (R : Nat → Nat → Prop) (p q : Option Declaration × Scanner) : Prop :=
  Option.Rel (Declaration.Rel R) p.1 q.1 ∧ p.2.Rel R q.2

theorem finish_rel {last last' kw kw' : Nat} {h h' : Header} {kind : ClassKind}
    {ts us : List Token} (hl : R last last') (hh : Header.Rel R h h') (hkw : R kw kw')
    (ht : List.Forall₂ (Token.Rel R) ts us) :
    stepRel R (finish last h kind kw ts) (finish last' h' kind kw' us) := by
  unfold finish
  have hd : Option.Rel (fun p q => p.1.Rel R q.1 ∧ List.Forall₂ (Token.Rel R) p.2 q.2)
      (declaration? last h kind kw ts) (declaration? last' h' kind kw' us) :=
    declaration?_rel hl hh hkw ht
  generalize declaration? last h kind kw ts = p, declaration? last' h' kind kw' us = q at hd
  cases hd with
  | none => exact ⟨.none, .start ht⟩
  | some hd => exact ⟨.some hd.1, .start hd.2⟩

theorem step_rel {last last' : Nat} {s s' : Scanner} (hl : R last last') (h : s.Rel R s') :
    stepRel R (s.step last) (s'.step last') := by
  obtain ⟨dot, hh, ts⟩ := s
  obtain ⟨dot', hh', us⟩ := s'
  obtain ⟨rfl, hh, ht⟩ := h
  cases ht with
  | nil => exact ⟨.none, rfl, hh, .nil⟩
  | @cons k l ts us hk ht =>
    have hr : role dot k ts = role dot l us := role_rel hk ht
    simp only [step, ← hr]
    cases hrole : role dot k ts with
    | statement => exact ⟨.none, .start (afterStatement_rel ht)⟩
    | annotationUse =>
      exact ⟨.none, rfl, hh.addAnnotationAt hk.start, annotationRest_rel ht⟩
    | annotationType => exact finish_rel hl hh hk.start (tail_rel ht)
    | modifier => exact ⟨.none, rfl, hh.addModifier hk (Role.Fits.of_eq hrole).1, ht⟩
    | keyword kind => exact finish_rel hl hh hk.start ht
    | block => exact ⟨.none, .start (afterClosing_rel ht)⟩
    | other => exact ⟨.none, by simp only [hk.kind], .empty, ht⟩

/-- **Scans of related tokens** find related declarations. -/
theorem run_rel {last last' : Nat} {s s' : Scanner} (hl : R last last') (h : s.Rel R s') :
    List.Forall₂ (Declaration.Rel R) (s.run last) (s'.run last') := by
  generalize hn : s.rest.length = n
  induction n using Nat.strongRecOn generalizing s s' with
  | ind n ih =>
    have hlen : s.rest.length = s'.rest.length := h.rest.length_eq
    by_cases hs : s.rest = []
    · have hs' : s'.rest = [] := List.eq_nil_of_length_eq_zero (by rw [← hlen, hs]; rfl)
      rw [run_nil hs, run_nil hs']
      exact .nil
    · have hs' : s'.rest ≠ [] := fun hs' =>
        hs (List.eq_nil_of_length_eq_zero (by rw [hlen, hs']; rfl))
      obtain ⟨hd, hr⟩ := step_rel hl h
      rw [run_step hs rfl, run_step hs' rfl]
      exact List.rel_append (toList_rel hd) (ih _ (hn ▸ length_step_lt hs) hr rfl)

end Scanner

end Source

end QuickFix
