import QuickFix.Proofs.Source.Leading
import QuickFix.Proofs.Source.Partition

/-!
# Where declarations stand

The offsets that a scan reports are in order, at places of the text. `Scanner.Sound` says where the
tokens that a state still has to read and the offsets in its header stand; a step keeps it and finds
a well-placed declaration (`Scanner.Sound.step`), and so does a run:

* `declarations_wellPlaced`: the declarations of a text stand one behind the other, and the parts of
  each in order (`Declaration.WellPlaced`);
* `Scanner.exists_led`: the modifiers in front of the keyword of a declaration, which give its level.
-/

namespace QuickFix

namespace Source

/-- The tokens are the last ones of the text, and none of them starts before `n`. -/
structure Behind (t : Text) (n : Nat) (ks : List Token) : Prop where
  suffix : ks <:+ tokens t
  le_start {k : Token} (hk : k ∈ ks) : n ≤ k.start

namespace Behind

variable {t : Text} {n : Nat} {k : Token} {ks ls : List Token}

theorem mono (h : Behind t n ks) (hs : ls <:+ ks) : Behind t n ls :=
  ⟨hs.trans h.suffix, fun hk => h.le_start (hs.subset hk)⟩

theorem mem (h : Behind t n ks) (hs : k :: ls <:+ ks) : k ∈ tokens t :=
  (hs.trans h.suffix).subset List.mem_cons_self

/-- The tokens behind one of them. -/
theorem next (h : Behind t n ks) (hs : k :: ls <:+ ks) : Behind t k.stop ls := by
  have hsuffix := hs.trans h.suffix
  refine ⟨(List.suffix_cons k ls).trans hsuffix, fun hl => ?_⟩
  exact (List.pairwise_cons.1 ((parts_tokens t).ordered.sublist hsuffix.sublist)).1 _ hl

end Behind

theorem behind_tokens (t : Text) : Behind t 0 (tokens t) := ⟨List.suffix_rfl, fun _ => Nat.zero_le _⟩

theorem isBoundary_bytes (t : Text) : Text.IsBoundary t (Text.bytes t) :=
  ⟨t, [], (List.append_nil t).symm, rfl⟩

/-- What an opening brace covers. -/
theorem openBrace_at {t : Text} {k : Token} (hk : k ∈ tokens t) (ho : k.kind = .openBrace) :
    k.stop = k.start + 1 ∧ Text.slice? k.start (k.start + 1) t = some ['\x7b'] := by
  have htext : k.text = ['\x7b'] := (parts_tokens t).sign hk (by rw [ho]; rfl)
  have hstop : k.stop = k.start + 1 := by
    rw [Token.stop, htext]
    rfl
  have hreads := (parts_tokens t).reads hk
  rw [hstop, htext] at hreads
  exact ⟨hstop, hreads⟩

/-! ## What follows a name -/

/-- The stretch is a body behind the place `n` that ends at `stop`. -/
structure IsBodyAt (t : Text) (n stop : Nat) (s : Span) : Prop where
  le_start : n ≤ s.start
  start_lt_stop : s.start < s.stop
  stop_eq : s.stop = stop
  brace : Text.slice? s.start (s.start + 1) t = some ['\x7b']

/-- The header and body behind the place `n`. -/
structure Tail.WellPlaced (t : Text) (n : Nat) (tail : Tail) : Prop where
  le_stop : n ≤ tail.stop
  stop_le : tail.stop ≤ Text.bytes t
  isBoundary : Text.IsBoundary t tail.stop
  body : ∀ s ∈ tail.body?, IsBodyAt t n tail.stop s
  rest : Behind t tail.stop tail.rest

theorem tailOf_wellPlaced {t : Text} {n : Nat} {ks : List Token} (h : Behind t n ks)
    (hn : n ≤ Text.bytes t) : (tailOf (Text.bytes t) ks).WellPlaced t n := by
  -- nothing is left where the end of the text ends a declaration
  have hnil : Behind t (Text.bytes t) [] := ⟨List.nil_suffix, fun hk => by cases hk⟩
  unfold tailOf
  split
  · exact ⟨hn, Nat.le_refl _, isBoundary_bytes t, (fun s hs => by cases hs), hnil⟩
  rename_i o ls hend
  have hs := headerEnd?_suffix hend
  have ho := h.mem hs
  have hlt := (parts_tokens t).start_lt_stop ho
  have hle := h.le_start (hs.subset List.mem_cons_self)
  obtain ⟨-, hboundary, hstop⟩ := (parts_tokens t).within ho
  split
  · rename_i hbrace
    obtain ⟨-, hreads⟩ := openBrace_at ho hbrace
    split
    · rename_i c rest hc
      have hcs := closing?_suffix hc
      have hlater := h.next hs
      have hcm := hlater.mem hcs
      have hclt := (parts_tokens t).start_lt_stop hcm
      have hcle := hlater.le_start (hcs.subset List.mem_cons_self)
      obtain ⟨-, hcboundary, hcstop⟩ := (parts_tokens t).within hcm
      refine ⟨by simp only; omega, hcstop, hcboundary, fun s hs => ?_, hlater.next hcs⟩
      cases hs
      exact ⟨hle, by simp only; omega, rfl, hreads⟩
    · refine ⟨hn, Nat.le_refl _, isBoundary_bytes t, fun s hs => ?_, hnil⟩
      cases hs
      exact ⟨hle, by simp only; omega, rfl, hreads⟩
  · exact ⟨by simp only; omega, hstop, hboundary, (fun s hs => by cases hs), h.next hs⟩

end Source

open Source

/-- Where a declaration of a text and its parts stand. -/
structure Declaration.WellPlaced (t : Text) (d : Declaration) : Prop where
  start_le_modifierStart : d.span.start ≤ d.modifierStart
  modifierStart_lt_name : d.modifierStart < d.nameSpan.start
  name_start_lt_stop : d.nameSpan.start < d.nameSpan.stop
  name_stop_le : d.nameSpan.stop ≤ d.span.stop
  stop_le : d.span.stop ≤ Text.bytes t
  isBoundary : ∀ n ∈ [d.span.start, d.modifierStart, d.nameSpan.start, d.nameSpan.stop, d.span.stop],
    Text.IsBoundary t n
  /-- The text at the place of the name is the name. -/
  name : Text.slice? d.nameSpan.start d.nameSpan.stop t = some d.name
  /-- The modifier that gives the level stands between the first modifier and the name, and spells the
  level. -/
  visibility : ∀ s ∈ d.visibilitySpan?, d.modifierStart ≤ s.start ∧ s.stop ≤ d.nameSpan.start ∧
    ∃ w, Text.slice? s.start s.stop t = some w ∧ Visibility.ofKeyword? w = some d.visibility
  /-- Without such a modifier the level is that of the package. -/
  package : d.visibilitySpan? = none → d.visibility = .package
  /-- The body starts with its brace behind the name and ends where the declaration does. -/
  body : ∀ s ∈ d.bodySpan?, IsBodyAt t d.nameSpan.stop d.span.stop s

namespace Source

/-! ## The header -/

/-- The offsets in the header stand in order before the tokens that are still to be read. -/
structure Header.WellPlaced (t : Text) (n : Nat) (ks : List Token) (h : Header) : Prop where
  start : ∀ a ∈ h.start?, n ≤ a ∧ Text.IsBoundary t a ∧ ∀ k ∈ ks, a ≤ k.start
  modifier : ∀ m ∈ h.modifier?, (∃ a ∈ h.start?, a ≤ m) ∧ Text.IsBoundary t m ∧
    ∀ k ∈ ks, m ≤ k.start
  visibility : ∀ v ∈ h.visibility?, (∃ m ∈ h.modifier?, m ≤ v.2.start) ∧
    (∃ w, Text.slice? v.2.start v.2.stop t = some w ∧ Visibility.ofKeyword? w = some v.1) ∧
    ∀ k ∈ ks, v.2.stop ≤ k.start

namespace Header.WellPlaced

variable {t : Text} {n : Nat} {h : Header} {k : Token} {ks ls : List Token}

theorem empty : WellPlaced t n ks .empty :=
  ⟨(fun a ha => by cases ha), (fun m hm => by cases hm), fun v hv => by cases hv⟩

theorem mono (hh : h.WellPlaced t n ks) (hs : ls <:+ ks) : h.WellPlaced t n ls where
  start a ha := (hh.start a ha).imp_right <| .imp_right fun hk l hl => hk l (hs.subset hl)
  modifier m hm := (hh.modifier m hm).imp_right <| .imp_right fun hk l hl => hk l (hs.subset hl)
  visibility v hv := (hh.visibility v hv).imp_right <| .imp_right fun hk l hl => hk l (hs.subset hl)

/-- The start of the next token, which is added where the header has no start yet. -/
theorem start_or (hh : h.WellPlaced t n (k :: ks)) (hb : Behind t n (k :: ks)) :
    ∀ a ∈ h.start?.or (some k.start), n ≤ a ∧ Text.IsBoundary t a ∧ a ≤ k.start ∧
      ∀ l ∈ ks, a ≤ l.start := by
  have hk := hb.mem List.suffix_rfl
  intro a ha
  rcases Option.or_eq_some_iff.1 ha with ha | ⟨-, ha⟩
  · obtain ⟨hle, hboundary, hbefore⟩ := hh.start a ha
    exact ⟨hle, hboundary, hbefore k List.mem_cons_self,
      fun l hl => hbefore l (List.mem_cons_of_mem k hl)⟩
  · obtain rfl := Option.some.inj ha
    refine ⟨hb.le_start List.mem_cons_self, ((parts_tokens t).within hk).1, Nat.le_refl _,
      fun l hl => ?_⟩
    have := (hb.next List.suffix_rfl).le_start hl
    have := (parts_tokens t).start_lt_stop hk
    omega

theorem addAnnotationAt (hh : h.WellPlaced t n (k :: ks)) (hb : Behind t n (k :: ks)) :
    (h.addAnnotationAt k.start).WellPlaced t n ks where
  start a ha := by
    obtain ⟨hle, hboundary, -, hbefore⟩ := hh.start_or hb a ha
    exact ⟨hle, hboundary, hbefore⟩
  modifier m hm := by
    obtain ⟨⟨a, ha, hle⟩, hrest⟩ := (hh.mono (List.suffix_cons k ks)).modifier m hm
    exact ⟨⟨a, Option.or_eq_some_iff.2 (.inl ha), hle⟩, hrest⟩
  visibility := (hh.mono (List.suffix_cons k ks)).visibility

theorem addModifier (hh : h.WellPlaced t n (k :: ks)) (hb : Behind t n (k :: ks)) :
    (h.addModifier k).WellPlaced t n ks := by
  have hk := hb.mem List.suffix_rfl
  have hmono := hh.mono (List.suffix_cons k ks)
  have hstart : ∃ a ∈ h.start?.or (some k.start), a ≤ k.start := by
    obtain ⟨a, ha⟩ : ∃ a, h.start?.or (some k.start) = some a := by cases h.start? <;> exact ⟨_, rfl⟩
    exact ⟨a, ha, (hh.start_or hb a ha).2.2.1⟩
  have hmodifier : ∃ m ∈ h.modifier?.or (some k.start), m ≤ k.start := by
    cases hm : h.modifier? with
    | none => exact ⟨_, rfl, Nat.le_refl _⟩
    | some m => exact ⟨m, rfl, (hh.modifier m hm).2.2 k List.mem_cons_self⟩
  have hbehind : ∀ l ∈ ks, k.stop ≤ l.start := fun l hl => (hb.next List.suffix_rfl).le_start hl
  have hlt := (parts_tokens t).start_lt_stop hk
  constructor
  · intro a ha
    obtain ⟨hle, hboundary, -, hbefore⟩ := hh.start_or hb a ha
    exact ⟨hle, hboundary, hbefore⟩
  · intro m hm
    rcases Option.or_eq_some_iff.1 hm with hm | ⟨-, hm⟩
    · obtain ⟨⟨a, ha, hle⟩, hrest⟩ := hmono.modifier m hm
      exact ⟨⟨a, Option.or_eq_some_iff.2 (.inl ha), hle⟩, hrest⟩
    · obtain rfl := Option.some.inj hm
      refine ⟨hstart, ((parts_tokens t).within hk).1, fun l hl => ?_⟩
      have := hbehind l hl
      omega
  · intro v hv
    rcases Option.or_eq_some_iff.1 hv with hv | ⟨-, hv⟩
    · obtain ⟨level, hlevel, rfl⟩ := Option.map_eq_some_iff.1 hv
      exact ⟨hmodifier, ⟨_, (parts_tokens t).reads hk, hlevel⟩, hbehind⟩
    · obtain ⟨⟨m, hm, hle⟩, hrest⟩ := hmono.visibility v hv
      exact ⟨⟨m, Option.or_eq_some_iff.2 (.inl hm), hle⟩, hrest⟩

/-- Where a declaration starts whose keyword is the next token. -/
theorem start_getD (hh : h.WellPlaced t n (k :: ks)) (hb : Behind t n (k :: ks)) :
    n ≤ h.start?.getD k.start ∧ Text.IsBoundary t (h.start?.getD k.start) := by
  have := hh.start_or hb (h.start?.getD k.start) (by cases h.start? <;> rfl)
  exact ⟨this.1, this.2.1⟩

/-- Where its modifiers start. -/
theorem modifier_getD (hh : h.WellPlaced t n (k :: ks)) (hb : Behind t n (k :: ks)) :
    h.start?.getD k.start ≤ h.modifier?.getD k.start ∧
      Text.IsBoundary t (h.modifier?.getD k.start) ∧ h.modifier?.getD k.start ≤ k.start := by
  cases hm : h.modifier? with
  | some m =>
    obtain ⟨⟨a, ha, hle⟩, hboundary, hbefore⟩ := hh.modifier m hm
    rw [ha]
    exact ⟨hle, hboundary, hbefore k List.mem_cons_self⟩
  | none =>
    have hstart := hh.start_or hb (h.start?.getD k.start) (by cases h.start? <;> rfl)
    exact ⟨hstart.2.2.1, ((parts_tokens t).within (hb.mem List.suffix_rfl)).1, Nat.le_refl _⟩

end Header.WellPlaced

/-! ## Steps and runs -/

/-- A declaration that is complete is well placed, and so is what follows it. -/
theorem declaration?_wellPlaced {t : Text} {n : Nat} {h : Header} {kind : ClassKind} {k : Token}
    {ks ls rest : List Token} {d : Declaration} (hh : h.WellPlaced t n (k :: ks))
    (hb : Behind t n (k :: ks)) (hs : ls <:+ ks)
    (hd : declaration? (Text.bytes t) h kind k.start ls = some (d, rest)) :
    d.WellPlaced t ∧ n ≤ d.span.start ∧ Behind t d.span.stop rest := by
  obtain ⟨name, ls, rfl, -, rfl, rfl⟩ := declaration?_eq_some hd
  have hk := hb.mem List.suffix_rfl
  have hkb := hb.next List.suffix_rfl
  have hname := hkb.mem hs
  have hlt := (parts_tokens t).start_lt_stop hk
  have hnlt := (parts_tokens t).start_lt_stop hname
  have hle := hkb.le_start (hs.subset List.mem_cons_self)
  obtain ⟨hnstart, hnstop, hnle⟩ := (parts_tokens t).within hname
  have htail := tailOf_wellPlaced (hkb.next hs) hnle
  have hstop := htail.le_stop
  -- the keyword stands in for what the header does not hold
  have hstart := hh.start_getD hb
  have hmodifier := hh.modifier_getD hb
  refine ⟨⟨?_, ?_, hnlt, hstop, htail.stop_le, ?_, (parts_tokens t).reads hname, ?_, ?_,
    htail.body⟩, hstart.1, htail.rest⟩
  · exact hmodifier.1
  · exact Nat.lt_of_le_of_lt hmodifier.2.2 (Nat.lt_of_lt_of_le hlt hle)
  · simp only [List.forall_mem_cons, List.not_mem_nil, false_imp_iff, implies_true, and_true]
    exact ⟨hstart.2, hmodifier.2.1, hnstart, hnstop, htail.isBoundary⟩
  · intro s hspan
    obtain ⟨v, hv, rfl⟩ := Option.map_eq_some_iff.1 hspan
    obtain ⟨⟨m, hm, hmv⟩, ⟨w, hw, hlevel⟩, hbefore⟩ := hh.visibility v hv
    have hvk := hbefore k List.mem_cons_self
    refine ⟨?_, Nat.le_trans hvk (Nat.le_trans (Nat.le_of_lt hlt) hle), w, hw, ?_⟩
    · simpa only [Option.mem_def.1 hm, Option.getD_some] using hmv
    · simpa only [hv, Option.map_some, Option.getD_some] using hlevel
  · intro hv
    rw [Option.map_eq_none_iff.1 hv]
    rfl

namespace Scanner

/-- The tokens left start at `n` or later, and so does what the header holds. -/
structure Sound (t : Text) (n : Nat) (s : Scanner) : Prop where
  rest : Behind t n s.rest
  header : s.header.WellPlaced t n s.rest

/-- What a step finds is well placed, and the state after it is behind what is found. -/
inductive Finds (t : Text) (n : Nat) : Option Declaration × Scanner → Prop
  | none {s : Scanner} : s.Sound t n → Finds t n (none, s)
  | some {d : Declaration} {s : Scanner} :
      d.WellPlaced t → n ≤ d.span.start → s.Sound t d.span.stop → Finds t n (some d, s)

variable {t : Text} {n : Nat} {s : Scanner} {k : Token} {ks ls : List Token}

theorem Sound.start (h : Behind t n ks) : (start ks).Sound t n := ⟨h, .empty⟩

theorem finds_finish {h : Header} (kind : ClassKind) (hh : h.WellPlaced t n (k :: ks))
    (hb : Behind t n (k :: ks)) (hs : ls <:+ ks) :
    Finds t n (finish (Text.bytes t) h kind k.start ls) := by
  unfold finish
  split
  · rename_i hd
    obtain ⟨hd, hle, hrest⟩ := declaration?_wellPlaced hh hb hs hd
    exact .some hd hle (.start hrest)
  · exact .none (.start (hb.mono (hs.trans (List.suffix_cons k ks))))

theorem Sound.step (h : s.Sound t n) : Finds t n (s.step (Text.bytes t)) := by
  obtain ⟨dot, hd, ks⟩ := s
  obtain ⟨hb, hh⟩ := h
  cases ks with
  | nil => exact .none ⟨hb, hh⟩
  | cons k ks =>
    have hks := hb.mono (List.suffix_cons k ks)
    simp only [Scanner.step]
    split
    · exact .none (.start (hks.mono (afterStatement_suffix ks)))
    · have hs := annotationRest_suffix ks
      exact .none ⟨hks.mono hs, (hh.addAnnotationAt hb).mono hs⟩
    · exact finds_finish .annotationType hh hb (List.tail_suffix ks)
    · exact .none ⟨hks, hh.addModifier hb⟩
    · exact finds_finish _ hh hb List.suffix_rfl
    · exact .none (.start (hks.mono (afterClosing_suffix ..)))
    · exact .none ⟨hks, .empty⟩

/-- **A run finds well-placed declarations, one behind the other.** -/
theorem Sound.run (h : s.Sound t n) :
    (s.run (Text.bytes t)).Pairwise (·.span.stop ≤ ·.span.start) ∧
      ∀ d ∈ s.run (Text.bytes t), d.WellPlaced t ∧ n ≤ d.span.start := by
  generalize hlen : s.rest.length = len
  induction len using Nat.strongRecOn generalizing s n with
  | ind len ih =>
    by_cases hs : s.rest = []
    · rw [run_nil hs]
      exact ⟨.nil, fun d hd => by cases hd⟩
    obtain ⟨d?, s', hst⟩ : ∃ d? s', s.step (Text.bytes t) = (d?, s') := ⟨_, _, rfl⟩
    have hlt : s'.rest.length < len := by
      have hl : (s.step (Text.bytes t)).2.rest.length < s.rest.length := length_step_lt hs
      rwa [hst, hlen] at hl
    have hfinds := h.step
    rw [hst] at hfinds
    rw [run_step hs hst]
    cases hfinds with
    | none h' => exact ih _ hlt h' rfl
    | @some d _ hd hle h' =>
      obtain ⟨hordered, hall⟩ := ih _ hlt h' rfl
      have hspan : d.span.start ≤ d.span.stop := by
        have := hd.start_le_modifierStart
        have := hd.modifierStart_lt_name
        have := hd.name_start_lt_stop
        have := hd.name_stop_le
        omega
      refine ⟨List.pairwise_cons.2 ⟨fun d' hd' => (hall d' hd').2, hordered⟩, fun d' hd' => ?_⟩
      rcases List.mem_cons.1 hd' with rfl | hd'
      · exact ⟨hd, hle⟩
      · exact ⟨(hall d' hd').1, Nat.le_trans hle (Nat.le_trans hspan (hall d' hd').2)⟩

/-! ## The modifiers of a declaration -/

/-- **A declaration is led to** from a state in which nothing has been read of it. -/
theorem exists_led {last : Nat} {d : Declaration} (h : d ∈ s.run last)
    (he : s.header = .empty) :
    ∃ ds ms s₁ s₂ s₃, Runs last s ds s₁ ∧ s₁.header = .empty ∧ Leads s₁ ms s₂ ∧
      s₂.step last = (some d, s₃) := by
  obtain ⟨i, hi⟩ := List.getElem?_of_mem h
  clear h
  generalize hn : s.rest.length = len
  induction len using Nat.strongRecOn generalizing s i with
  | ind len ih =>
    rcases leads_or_forgets hi with ⟨-, ms, s₂, s₃, hl, hd⟩ | ⟨ds, s₁, hrun, he', hlt, -, hi'⟩
    · exact ⟨[], ms, s, s₂, s₃, .refl s, he, hl, hd⟩
    · obtain ⟨es, ms, s₁', s₂, s₃, hrun', hrest⟩ := ih _ (hn ▸ hlt) he' _ hi' rfl
      exact ⟨ds ++ es, ms, s₁', s₂, s₃, hrun.trans hrun', hrest⟩

end Scanner

end Source

/-- Annotations and the modifiers `ms` lead to the keyword of the declaration, from a place where
nothing has been read of it. -/
def Declaration.Led (t : Text) (d : Declaration) (ms : List Token) : Prop :=
  ∃ ds s₁ s₂ s₃, Scanner.Runs (Text.bytes t) (.start (tokens t)) ds s₁ ∧ s₁.header = .empty ∧
    Scanner.Leads s₁ ms s₂ ∧ s₂.step (Text.bytes t) = (some d, s₃)

/-- The place of the level is that of the last modifier that names one. -/
theorem Declaration.Led.visibilitySpan?_eq {t : Text} {d : Declaration} {ms : List Token}
    (h : d.Led t ms) :
    d.visibilitySpan? = (ms.filter Token.namesLevel).getLast?.map Token.span := by
  obtain ⟨ds, s₁, s₂, s₃, -, he, hl, hd⟩ := h
  obtain ⟨-, -, -, -, hspan, -, -⟩ := Scanner.header_of_step hd
  rw [hspan, hl.visibilitySpan?_eq, he]
  exact Option.or_none

/-- **Declarations are well placed**: each token that the scan looks at can be cut out of the text;
each declaration begins where the one before it has ended or later, its parts are in order in the
text, and it has the place of a level exactly if one of its modifiers names a level, that of the last
one that does. -/
theorem declarations_wellPlaced (t : Text) :
    (∀ k ∈ tokens t, Text.slice? k.start k.stop t = some k.text) ∧
      (declarations t).Pairwise (·.span.stop ≤ ·.span.start) ∧
      ∀ d ∈ declarations t, d.WellPlaced t ∧ ∃ ms, d.Led t ms ∧
        d.visibilitySpan? = (ms.filter Token.namesLevel).getLast?.map Token.span := by
  obtain ⟨hordered, hplaced⟩ := (Scanner.Sound.start (behind_tokens t)).run
  refine ⟨fun k hk => (parts_tokens t).reads hk, hordered, fun d hd => ⟨(hplaced d hd).1, ?_⟩⟩
  obtain ⟨ds, ms, s₁, s₂, s₃, hled⟩ := Scanner.exists_led hd rfl
  have hled : d.Led t ms := ⟨ds, s₁, s₂, s₃, hled⟩
  exact ⟨ms, hled, hled.visibilitySpan?_eq⟩

/-- Two annotations, two modifiers that name a level, and modifiers that lead to no keyword. -/
theorem declarations_wellPlaced_annotated :
    let t : Text := "@A private @B(C) public\nclass É \x7b\x7d final ; enum D"
    let d : Declaration := ⟨['É'], .plain, .pub, some ⟨17, 23⟩, 3, ⟨0, 35⟩, ⟨30, 32⟩, some ⟨33, 35⟩⟩
    let e : Declaration := ⟨['D'], .enum, .package, none, 44, ⟨44, 50⟩, ⟨49, 50⟩, none⟩
    declarations t = [d, e] ∧ d.span.stop ≤ e.span.start ∧ d.WellPlaced t ∧ e.WellPlaced t ∧
      ∃ ms, d.Led t ms ∧ (ms.filter Token.namesLevel).getLast?.map Token.span = some ⟨17, 23⟩ := by
  intro t d e
  have hds : declarations t = [d, e] := by decide +kernel
  obtain ⟨-, hordered, hplaced⟩ := declarations_wellPlaced t
  rw [hds] at hordered hplaced
  obtain ⟨hd, ms, hled, hlevel⟩ := hplaced d (by simp)
  exact ⟨hds, (List.pairwise_cons.1 hordered).1 e (by simp), hd, (hplaced e (by simp)).1, ms, hled,
    hlevel.symm⟩

end QuickFix
