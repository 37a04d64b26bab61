import QuickFix.Proofs.Source.Relating

/-!
# What is read as the package statement

A package statement is read up to its semicolon or its name. `exists_of_packageStatement?` finds its
word: what comes behind the word is read by `packageBehind?`, whatever that is. Hence

* `packageStatement?_change`: tokens behind the statement may be exchanged for others, unless a word
  comes next and the name waits for one (`nameOpen`);
* `name_ne_of_nameOpen`: in that case the word goes to the name;
* `packageStatement?_rel`: the name does not depend on where the tokens stand.
-/

namespace QuickFix

namespace Text

/-! ## Dots of a name -/

theorem count_trimStart {c : Char} (hc : isBlank c = false) (t : Text) :
    (trimStart t).count c = t.count c := by
  have hnone : (t.takeWhile isBlank).count c = 0 := by
    rw [List.count_eq_zero]
    intro hm
    have hb := List.all_eq_true.1 List.all_takeWhile c hm
    rw [hc] at hb
    cases hb
  have happ := congrArg (List.count c) (List.takeWhile_append_dropWhile (p := isBlank) (l := t))
  rw [List.count_append, hnone, Nat.zero_add] at happ
  exact happ

theorem count_trimEnd {c : Char} (hc : isBlank c = false) (t : Text) :
    (trimEnd t).count c = t.count c := by
  have h := count_trimStart hc t.reverse
  rw [List.count_reverse] at h
  unfold trimEnd dropEndWhile
  rw [List.count_reverse]
  exact h

end Text

theorem PackageName.count_of_parse? {t : Text} {p : PackageName} (h : PackageName.parse? t = some p) :
    p.text.count '.' = t.count '.' := by
  have htrim : (Text.trim t).count '.' = t.count '.' := by
    unfold Text.trim
    rw [Text.count_trimEnd (by decide), Text.count_trimStart (by decide)]
  unfold PackageName.parse? at h
  simp only at h
  split at h
  · rename_i he
    obtain rfl := Option.some.inj h
    rw [← htrim, List.isEmpty_iff.1 he]
    rfl
  · split at h
    · obtain rfl := Option.some.inj h
      exact htrim
    · cases h

namespace Source

/-! ## Names -/

theorem moreSegments_last (name : Text) (last : Token) (ts : List Token) :
    (moreSegments name last ts).2.1 :: (moreSegments name last ts).2.2 <:+ last :: ts := by
  fun_induction moreSegments name last ts with
  | case1 name last d w ts hd ih => exact ih.trans (List.suffix_append [last, d] (w :: ts))
  | case2 => exact List.suffix_rfl
  | case3 => exact List.suffix_rfl

/-- The last token of a name comes just before what follows it. -/
theorem dottedName?_last {ts rest : List Token} {name : Text} {last : Token}
    (h : dottedName? ts = some (name, last, rest)) : last :: rest <:+ ts := by
  cases ts with
  | nil => cases h
  | cons w ts =>
    simp only [dottedName?] at h
    split at h
    · have hs := moreSegments_last w.text w ts
      rwa [Option.some.inj h] at hs
    · cases h

theorem moreSegments_last_kind (name : Text) {last : Token} (ts : List Token)
    (h : last.kind = .word) : (moreSegments name last ts).2.1.kind = .word := by
  fun_induction moreSegments name last ts with
  | case1 name last d w ts hd ih => exact ih hd.2
  | case2 => exact h
  | case3 => exact h

theorem dottedName?_last_kind {ts rest : List Token} {name : Text} {last : Token}
    (h : dottedName? ts = some (name, last, rest)) : last.kind = .word := by
  cases ts with
  | nil => cases h
  | cons w ts =>
    simp only [dottedName?] at h
    split at h
    · rename_i hw
      have hk := moreSegments_last_kind w.text ts hw
      rwa [Option.some.inj h] at hk
    · cases h

theorem prefix_moreSegments (name : Text) (last : Token) (ts : List Token) :
    name <+: (moreSegments name last ts).1 := by
  fun_induction moreSegments name last ts with
  | case1 name last d w ts hd ih =>
    exact ((List.prefix_append name ['.']).trans (List.prefix_append _ w.text)).trans ih
  | case2 => exact List.prefix_rfl
  | case3 => exact List.prefix_rfl

/-- A name that waits for a word has a dot at its end. -/
theorem kind_of_nameOpen {ts : List Token} {k : Token} (h : nameOpen (ts ++ [k]) = true)
    (hts : ts ≠ []) : k.kind = .dot := by
  obtain ⟨w, ts, rfl⟩ := List.exists_cons_of_ne_nil hts
  simp only [List.cons_append, nameOpen, Bool.and_eq_true, decide_eq_true_eq] at h
  obtain ⟨d, hd, hkind⟩ := List.map_eq_singleton_iff.1 h.2
  have hs := moreSegments_suffix w.text w (ts ++ [k])
  rw [hd] at hs
  have hlast : d = k := by
    obtain ⟨u, hu⟩ := hs
    exact (List.cons.inj (List.append_inj_right' hu rfl)).1
  rw [← hlast]
  exact hkind

/-! ## The statement behind its word -/

/-- Where a statement ends whose name ends with `last` before `rest`. -/
def statementStop (last : Token) (rest : List Token) : Nat :=
  match rest with
  | s :: _ => if s.kind = .semicolon then s.stop else last.stop
  | [] => last.stop

/-- The package statement whose word, at offset `start`, came just before the tokens. -/
def packageBehind? (start : Nat) (ts : List Token) : Option PackageStatement := do
  let (name, last, rest) ← dottedName? ts
  return ⟨← PackageName.parse? name, ⟨start, statementStop last rest⟩⟩

theorem packageBehind?_eq_some_iff {start : Nat} {ts : List Token} {p : PackageStatement} :
    packageBehind? start ts = some p ↔ ∃ name last rest, dottedName? ts = some (name, last, rest) ∧
      PackageName.parse? name = some p.name ∧ p.span = ⟨start, statementStop last rest⟩ := by
  unfold packageBehind?
  constructor
  · intro h
    obtain ⟨⟨name, last, rest⟩, hn, h⟩ := Option.bind_eq_some_iff.1 h
    obtain ⟨n, hp, h⟩ := Option.bind_eq_some_iff.1 h
    obtain rfl := Option.some.inj h
    exact ⟨name, last, rest, hn, hp, rfl⟩
  · rintro ⟨name, last, rest, hn, hp, hs⟩
    obtain ⟨n, span⟩ := p
    obtain rfl : span = _ := hs
    simp only [hn, hp, bind, Option.bind, pure]

theorem packageStatement?_at {t : Token} (ts : List Token) (h : t.kind = .at) :
    packageStatement? (t :: ts) = packageStatement? (annotationRest ts) := by
  rw [packageStatement?, if_pos h]

theorem packageStatement?_word {t : Token} (ts : List Token) (h : t.isWord "package" = true) :
    packageStatement? (t :: ts) = packageBehind? t.start ts := by
  have hk : t.kind ≠ .at := by
    intro hk
    rw [Token.isWord, hk] at h
    cases h
  rw [packageStatement?, if_neg hk, if_pos h]
  rfl

/-- **The word of a package statement**: what comes before it leads to it whatever comes behind. -/
theorem exists_of_packageStatement? {ts : List Token} {p : PackageStatement}
    (h : packageStatement? ts = some p) : ∃ as w ns, ts = as ++ w :: ns ∧ w.kind = .word ∧
      w.start = p.span.start ∧
      ∀ us, packageStatement? (as ++ w :: us) = packageBehind? w.start us := by
  generalize hn : ts.length = n
  induction n using Nat.strongRecOn generalizing ts with
  | ind n ih =>
    cases ts with
    | nil => rw [packageStatement?] at h; cases h
    | cons t ts =>
      by_cases hat : t.kind = .at
      · rw [packageStatement?_at ts hat] at h
        have hlt : (annotationRest ts).length < n := by
          rw [← hn]
          exact Nat.lt_succ_of_le (annotationRest_suffix ts).length_le
        obtain ⟨as, w, ns, hrest, hw, hstart, hread⟩ := ih _ hlt h rfl
        obtain ⟨b, rfl⟩ : ∃ b, ts = b ++ w :: ns :=
          append_eq_of_suffix (b := as) (by rw [← hrest]; exact annotationRest_suffix ts)
        refine ⟨t :: b, w, ns, rfl, hw, hstart, fun us => ?_⟩
        -- the annotation does not wait for the word, since it left that
        have hopen : nameOpen b = false := by
          refine Bool.eq_false_iff.2 fun ho => ?_
          have hs := annotationRest_word_suffix (x := ns) ho hw
          rw [hrest] at hs
          have hl := hs.length_le
          simp only [List.length_append, List.length_cons] at hl
          omega
        have hjoins : Joins (w :: ns) (w :: us) := by
          intro k hk
          obtain rfl := Option.some.inj hk
          exact ⟨by simp [hw], by simp [hw], by simp [hw], .inl ⟨w, rfl, rfl⟩⟩
        rw [List.cons_append, packageStatement?_at _ hat,
          annotationRest_change (List.cons_ne_nil w ns) hrest hjoins (.inr hopen), hread]
      · by_cases hword : t.isWord "package" = true
        · have hw : t.kind = .word := by
            rw [Token.isWord, Bool.and_eq_true] at hword
            exact of_decide_eq_true hword.1
          have hread := fun us => packageStatement?_word us hword
          rw [hread] at h
          obtain ⟨_, _, _, -, -, hspan⟩ := packageBehind?_eq_some_iff.1 h
          exact ⟨[], t, ts, rfl, hw, by rw [hspan], hread⟩
        · rw [packageStatement?, if_neg hat, if_neg hword] at h
          cases h

theorem statementStop_cases (last : Token) (rest : List Token) :
    statementStop last rest = last.stop ∨
      ∃ s ∈ rest.head?, s.kind = .semicolon ∧ statementStop last rest = s.stop := by
  cases rest with
  | nil => exact .inl rfl
  | cons s rest =>
    by_cases hs : s.kind = .semicolon
    · exact .inr ⟨s, rfl, hs, by simp only [statementStop, if_pos hs]⟩
    · exact .inl (by simp only [statementStop, if_neg hs])

theorem statementStop_append {last : Token} {rest x y : List Token}
    (hx : rest = [] → ∀ k ∈ x.head?, k.kind ≠ .semicolon)
    (hy : rest = [] → ∀ k ∈ y.head?, k.kind ≠ .semicolon) :
    statementStop last (rest ++ x) = statementStop last (rest ++ y) := by
  have stop : ∀ z : List Token, (∀ k ∈ z.head?, k.kind ≠ .semicolon) →
      statementStop last z = last.stop := by
    intro z hz
    rcases statementStop_cases last z with h | ⟨s, hs, hk, -⟩
    · exact h
    · exact absurd hk (hz s hs)
  cases rest with
  | nil => rw [List.nil_append, List.nil_append, stop x (hx rfl), stop y (hy rfl)]
  | cons s rest => rfl

/-- The name of a package statement is read from the kinds and texts of tokens. -/
theorem packageStatement?_rel {R : Nat → Nat → Prop} {ts us : List Token}
    (h : List.Forall₂ (Token.Rel R) ts us) :
    (packageStatement? ts).map (·.name) = (packageStatement? us).map (·.name) := by
  generalize hn : ts.length = n
  induction n using Nat.strongRecOn generalizing ts us with
  | ind n ih =>
    cases h with
    | nil => rfl
    | @cons k l ts us hk h =>
      by_cases hat : k.kind = .at
      · rw [packageStatement?_at ts hat, packageStatement?_at us (hk.kind ▸ hat)]
        refine ih _ ?_ (annotationRest_rel h) rfl
        rw [← hn]
        exact Nat.lt_succ_of_le (annotationRest_suffix ts).length_le
      by_cases hword : k.isWord "package" = true
      · rw [packageStatement?_word ts hword, packageStatement?_word us (hk.isWord _ ▸ hword)]
        have hname := dottedName?_rel h
        unfold packageBehind?
        generalize dottedName? ts = p, dottedName? us = q at hname
        cases hname with
        | none => rfl
        | @some p q hname =>
          obtain ⟨name, _, _⟩ := p
          obtain ⟨name', _, _⟩ := q
          obtain rfl : name = name' := hname.1
          cases hp : PackageName.parse? name <;> simp [hp]
      · have hat' : l.kind ≠ .at := hk.kind ▸ hat
        have hword' : ¬l.isWord "package" = true := hk.isWord _ ▸ hword
        rw [packageStatement?, if_neg hat, if_neg hword, packageStatement?, if_neg hat',
          if_neg hword']

/-! ## Tokens behind the statement -/

/-- The tokens `x` hold the statement `p`: its word behind `lead`, and its name at the start of
`body`, which goes on with `rest` and then with `y`. -/
structure Stated (x y : List Token) (p : PackageStatement) where
  lead : List Token
  word : Token
  body : List Token
  name : Text
  last : Token
  rest : List Token
  split : x = lead ++ word :: body
  start : word.start = p.span.start
  reads : ∀ us, packageStatement? (lead ++ word :: us) = packageBehind? word.start us
  named : dottedName? (body ++ y) = some (name, last, rest ++ y)
  parsed : PackageName.parse? name = some p.name
  span : p.span = ⟨word.start, statementStop last (rest ++ y)⟩
  noSemicolon : rest = [] → ∀ k ∈ y.head?, k.kind ≠ .semicolon

/-- Of the tokens that end behind a statement it holds none. -/
theorem exists_stated {x y : List Token} {p : PackageStatement}
    (h : packageStatement? (x ++ y) = some p)
    (hy : ∀ k ∈ y, k.stop ≤ p.span.stop → k.kind = .literal) : Nonempty (Stated x y p) := by
  obtain ⟨lead, word, ns, hsplit, -, hstart, hread⟩ := exists_of_packageStatement? h
  rw [hsplit, hread] at h
  obtain ⟨name, last, rest, hname, hparse, hspan⟩ := packageBehind?_eq_some_iff.1 h
  have hlast := dottedName?_last hname
  have hstop : p.span.stop = statementStop last rest := by rw [hspan]
  have hsemicolon : ∀ s ∈ y, s.kind = .semicolon → p.span.stop ≠ s.stop := by
    intro s hs hk he
    rw [hy s hs (Nat.le_of_eq he.symm)] at hk
    cases hk
  have hxy : last :: rest <:+ x ++ y := by
    rw [hsplit]
    exact (hlast.trans (List.suffix_cons word ns)).trans (List.suffix_append lead _)
  have hrest : y <:+ rest := by
    rcases Nat.lt_or_ge rest.length y.length with hlt | hle
    · have hs : last :: rest <:+ y :=
        List.suffix_of_suffix_length_le hxy (List.suffix_append x y) hlt
      rcases statementStop_cases last rest with hc | ⟨s, hs', hk, hc⟩
      · have hl := hy last (hs.subset List.mem_cons_self) (by omega)
        rw [dottedName?_last_kind hname] at hl
        cases hl
      · have hmem := hs.subset (List.mem_cons_of_mem last (List.mem_of_mem_head? hs'))
        exact absurd (hstop.trans hc) (hsemicolon s hmem hk)
    · exact List.suffix_of_suffix_length_le (List.suffix_append x y)
        ((List.suffix_cons last rest).trans hxy) hle
  obtain ⟨rest, rfl⟩ := hrest
  obtain ⟨body, rfl⟩ : ∃ body, ns = body ++ y :=
    append_eq_of_suffix (b := last :: rest) hlast
  have hx : x = lead ++ word :: body := by
    rw [← List.cons_append, ← List.append_assoc] at hsplit
    exact List.append_cancel_right hsplit
  refine ⟨⟨lead, word, body, name, last, rest, hx, hstart, hread, hname, hparse, hspan, ?_⟩⟩
  rintro rfl k hk hkind
  obtain ⟨z, rfl⟩ := List.head?_eq_some_iff.1 hk
  have hc : statementStop last ([] ++ k :: z) = k.stop := by
    simp only [List.nil_append, statementStop, if_pos hkind]
  exact hsemicolon k List.mem_cons_self hkind (hstop.trans hc)

namespace Stated

variable {x y : List Token} {p : PackageStatement}

theorem packageStatement?_eq (s : Stated x y p) (z : List Token) :
    packageStatement? (x ++ z) = packageBehind? s.word.start (s.body ++ z) := by
  have hsplit : x ++ z = s.lead ++ s.word :: (s.body ++ z) :=
    (congrArg (· ++ z) s.split).trans (List.append_assoc ..)
  rw [hsplit, s.reads]

/-- **Other tokens behind a statement** leave it, if they go on neither its name nor the statement. -/
theorem change (s : Stated x y p) {z : List Token}
    (hz : ∀ k ∈ z.head?, k.kind ≠ .dot ∧ k.kind ≠ .semicolon)
    (hw : NoWord z ∨ nameOpen s.body = false) : packageStatement? (x ++ z) = some p := by
  rw [s.packageStatement?_eq, packageBehind?_eq_some_iff]
  refine ⟨s.name, s.last, s.rest ++ z, dottedName?_change s.named (fun k hk => (hz k hk).1) hw,
    s.parsed, ?_⟩
  rw [s.span, statementStop_append s.noSemicolon fun _ k hk => (hz k hk).2]

/-- Related tokens behind a statement leave its name. -/
theorem name_of_rel (s : Stated x y p) {z : List Token}
    (hz : List.Forall₂ (Token.Rel fun _ _ => True) y z) :
    (packageStatement? (x ++ z)).map (·.name) = some p.name := by
  have hself : List.Forall₂ (Token.Rel fun _ _ => True) s.body s.body :=
    List.forall₂_same.2 fun k _ => ⟨rfl, .inl rfl, trivial, trivial⟩
  have hname := dottedName?_rel (List.rel_append hself hz)
  rw [s.named] at hname
  cases hn : dottedName? (s.body ++ z) with
  | none => rw [hn] at hname; cases hname
  | some q =>
    obtain ⟨name, last, rest⟩ := q
    rw [hn] at hname
    cases hname with
    | some hname =>
      obtain rfl : s.name = name := hname.1
      have hread : packageBehind? s.word.start (s.body ++ z) =
          some ⟨p.name, ⟨s.word.start, statementStop last rest⟩⟩ :=
        packageBehind?_eq_some_iff.2 ⟨_, last, rest, hn, s.parsed, rfl⟩
      rw [s.packageStatement?_eq, hread]
      rfl

/-- **A word behind a name that waits for one** goes to the name. -/
theorem name_ne_of_nameOpen (s : Stated x y p) {w : Token} (z : List Token) (hw : w.kind = .word)
    (ho : nameOpen s.body = true) :
    (packageStatement? (x ++ w :: z)).map (·.name) ≠ some p.name := by
  intro h
  obtain ⟨p', hp', hname⟩ := Option.map_eq_some_iff.1 h
  rw [s.packageStatement?_eq] at hp'
  obtain ⟨name', last', rest', hn', hparse', -⟩ := packageBehind?_eq_some_iff.1 hp'
  have hself : dottedName? s.body = some (s.name, s.last, s.rest) := by
    have hn := dottedName?_change (y := []) s.named (fun k hk => by cases hk) (.inl NoWord.nil)
    rwa [List.append_nil, List.append_nil] at hn
  cases hb : s.body with
  | nil => rw [hb] at hself; cases hself
  | cons v a =>
    rw [hb] at ho hself hn'
    simp only [nameOpen, Bool.and_eq_true, decide_eq_true_eq] at ho
    simp only [List.cons_append, dottedName?, if_pos ho.1] at hself hn'
    rw [moreSegments_append_word ho.2 hw, Option.some.inj hself] at hn'
    -- the longer name has one more dot at least
    have hprefix := prefix_moreSegments (s.name ++ ['.'] ++ w.text) w z
    rw [Option.some.inj hn'] at hprefix
    have hcount := hprefix.sublist.count_le '.'
    rw [List.count_append, List.count_append, ← PackageName.count_of_parse? hparse', hname,
      PackageName.count_of_parse? s.parsed] at hcount
    have hone : List.count '.' ['.'] = 1 := rfl
    omega

end Stated

end Source

end QuickFix
