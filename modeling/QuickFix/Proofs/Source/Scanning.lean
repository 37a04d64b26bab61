import QuickFix.Source.Declaration

/-!
# What a scan reads

A step of the scan for declarations takes a stretch of tokens and leaves the rest. `Scanner.put`
puts tokens behind those that a state still has to read, and `step_put` says when a step that leaves
the tokens put there alone does so for other tokens in their place: these must not go on what was
read (`Joins`), and if they start with a word, the step must not wait for a name
(`Scanner.awaitsName`). `Scanner.Runs` is a run of some steps:

* `Runs.run_eq`: a scan finds the declarations of a run, and then those of what the run leaves;
* `Runs.change`: the run up to some tokens is the same before others, unless a statement still waits
  for a name there (`Scanner.pending?`) and a word comes next.
-/

namespace QuickFix.Source

/-! ## What may come next -/

/-- The texts that statements look for whatever the kind of the token. -/
def signs : List Text := ["static", "*", "interface"]

/-- Tokens `y` may come where the tokens `x` came: their first one goes on no name and no
annotation, and it is no word or sign that a statement looks for, unless `x` had it. -/
def Joins (x y : List Token) : Prop :=
  ∀ k ∈ y.head?, k.kind ≠ .dot ∧ k.kind ≠ .openParen ∧ k.kind ≠ .semicolon ∧
    ((∃ l ∈ x.head?, l.text = k.text) ∨ k.text ∉ signs)

/-- The tokens do not start with a word. -/
def NoWord (y : List Token) : Prop := ∀ k ∈ y.head?, k.kind ≠ .word

theorem Joins.nil (x : List Token) : Joins x [] := fun k hk => by cases hk

theorem NoWord.nil : NoWord [] := fun k hk => by cases hk

/-- Is the dotted name that the tokens start with still to come or to go on at their end? -/
def nameOpen : List Token → Bool
  | [] => true
  | w :: ts => w.kind = .word && (moreSegments w.text w ts).2.2.map (·.kind) = [.dot]

theorem append_eq_of_suffix {x z b : List Token} (h : b ++ x <:+ z) : ∃ a, z = a ++ x := by
  obtain ⟨u, hu⟩ := h
  exact ⟨u ++ b, by rw [← hu, List.append_assoc]⟩

theorem not_suffix_of_length {x b z : List Token} (h : b ++ x <:+ z) (hl : z.length < x.length) :
    False := by
  have := h.length_le
  simp only [List.length_append] at this
  omega

/-- What a reader leaves of `x` when it leaves all of it. -/
theorem eq_nil_of_append_suffix {x b : List Token} (h : b ++ x <:+ x) : b = [] := by
  have := h.length_le
  simp only [List.length_append] at this
  exact List.eq_nil_of_length_eq_zero (by omega)

theorem append_cons_ne (b : List Token) (w : Token) (x : List Token) : b ++ w :: x ≠ x := fun h => by
  have := congrArg List.length h
  simp only [List.length_append, List.length_cons] at this
  omega

theorem skipIf_change {p : Token → Bool} {a x b : List Token} (y : List Token)
    (h : skipIf p (a ++ x) = b ++ x)
    (hy : ∀ k ∈ y.head?, (∃ l ∈ x.head?, p l = p k) ∨ p k = false) :
    skipIf p (a ++ y) = b ++ y := by
  cases a with
  | cons t a =>
    simp only [List.cons_append, skipIf] at h ⊢
    split at h
    · rename_i hp
      rw [if_pos hp, List.append_cancel_right h]
    · rename_i hp
      rw [← List.cons_append] at h
      rw [if_neg hp, ← List.append_cancel_right h]
      rfl
  | nil =>
    rw [List.nil_append] at h ⊢
    obtain rfl : b = [] := eq_nil_of_append_suffix <| by
      have := skipIf_suffix p x
      rwa [h] at this
    cases y with
    | nil => rfl
    | cons k y =>
      have hk : p k = false := by
        rcases hy k rfl with ⟨l, hl, he⟩ | hk
        · obtain ⟨x, rfl⟩ := List.head?_eq_some_iff.1 hl
          rw [← he]
          cases hp : p l with
          | false => rfl
          | true => simp [skipIf, hp] at h
        · exact hk
      simp [skipIf, hk]

theorem moreSegments_of_not_dot {name : Text} {last t : Token} {ts : List Token}
    (h : t.kind ≠ .dot) : moreSegments name last (t :: ts) = (name, last, t :: ts) := by
  cases ts <;> simp [moreSegments, h]

theorem moreSegments_eq_self {name : Text} {last : Token} {ts : List Token}
    (h : ts <:+ (moreSegments name last ts).2.2) : moreSegments name last ts = (name, last, ts) := by
  fun_cases moreSegments name last ts with
  | case1 d w ts hd =>
    simp only [moreSegments, if_pos hd] at h
    have := (h.trans (moreSegments_suffix ..)).length_le
    simp only [List.length_cons] at this
    omega
  | case2 => rfl
  | case3 => rfl

theorem moreSegments_change {name n : Text} {last l : Token} {a x b : List Token} (y : List Token)
    (h : moreSegments name last (a ++ x) = (n, l, b ++ x)) (hy : ∀ k ∈ y.head?, k.kind ≠ .dot)
    (hw : NoWord y ∨ (moreSegments name last a).2.2.map (·.kind) ≠ [.dot]) :
    moreSegments name last (a ++ y) = (n, l, b ++ y) := by
  fun_induction moreSegments name last a with
  | case1 name last d w ts hd ih =>
    simp only [List.cons_append, moreSegments, if_pos hd] at h ⊢
    exact ih h hw
  | case2 name last d w ts hd =>
    simp only [List.cons_append, moreSegments, if_neg hd, Prod.mk.injEq] at h ⊢
    obtain ⟨rfl, rfl, h⟩ := h
    rw [← List.cons_append, ← List.cons_append] at h
    rw [← List.append_cancel_right h]
    simp
  | case3 name last ts hts =>
    have hs : b ++ x <:+ ts ++ x := by
      have := moreSegments_suffix name last (ts ++ x)
      rwa [h] at this
    match ts, hts with
    | [], _ =>
      obtain rfl := eq_nil_of_append_suffix hs
      rw [moreSegments_eq_self (h.symm ▸ List.suffix_rfl)] at h
      cases h
      cases y with
      | nil => rfl
      | cons k y => exact moreSegments_of_not_dot (hy k rfl)
    | [d], _ =>
      have hx : d :: x <:+ (moreSegments name last (d :: x)).2.2 := by
        cases x with
        | nil => simp [moreSegments]
        | cons w x =>
          by_cases hd : d.kind = .dot ∧ w.kind = .word
          · simp only [List.cons_append, List.nil_append, moreSegments, if_pos hd] at h
            have := moreSegments_suffix (name ++ ['.'] ++ w.text) w x
            rw [h] at this
            exact (not_suffix_of_length this (by simp)).elim
          · simp [moreSegments, hd]
      rw [List.cons_append, List.nil_append, moreSegments_eq_self hx] at h
      simp only [Prod.mk.injEq] at h
      obtain ⟨rfl, rfl, h⟩ := h
      obtain rfl : [d] = b := List.append_cancel_right h
      cases y with
      | nil => rfl
      | cons k y =>
        have hd : ¬(d.kind = .dot ∧ k.kind = .word) := by
          rintro ⟨hd, hk⟩
          rcases hw with hw | hw
          · exact hw k rfl hk
          · simp [hd] at hw
        simp [moreSegments, hd]
    | d :: w :: ts, hts => exact (hts d w ts rfl).elim

theorem dottedName?_change {n : Text} {l : Token} {a x b : List Token} {y : List Token}
    (h : dottedName? (a ++ x) = some (n, l, b ++ x)) (hy : ∀ k ∈ y.head?, k.kind ≠ .dot)
    (hw : NoWord y ∨ nameOpen a = false) : dottedName? (a ++ y) = some (n, l, b ++ y) := by
  cases a with
  | nil =>
    cases x with
    | nil => cases h
    | cons w x => exact (not_suffix_of_length (dottedName?_suffix h) (by simp)).elim
  | cons w a =>
    simp only [List.cons_append, dottedName?] at h ⊢
    split at h
    · rename_i hk
      rw [if_pos hk, moreSegments_change y (Option.some.inj h) hy]
      refine hw.imp_right fun hw => ?_
      simpa [nameOpen, hk] using hw
    · cases h

theorem dottedName?_change_none {a x y : List Token} (h : dottedName? (a ++ x) = none)
    (hw : NoWord y ∨ nameOpen a = false) : dottedName? (a ++ y) = none := by
  cases a with
  | nil =>
    cases y with
    | nil => rfl
    | cons k y =>
      rcases hw with hw | hw
      · simp [dottedName?, hw k rfl]
      · simp [nameOpen] at hw
  | cons w a =>
    simp only [List.cons_append, dottedName?] at h ⊢
    split at h
    · cases h
    · rename_i hk; rw [if_neg hk]

/-- A word after a dot goes on with the name. -/
theorem moreSegments_append_word {name : Text} {last w : Token} {a x : List Token}
    (h : (moreSegments name last a).2.2.map (·.kind) = [.dot]) (hw : w.kind = .word) :
    moreSegments name last (a ++ w :: x) =
      moreSegments ((moreSegments name last a).1 ++ ['.'] ++ w.text) w x := by
  fun_induction moreSegments name last a with
  | case1 name last d v ts hd ih =>
    simp only [List.cons_append, moreSegments, if_pos hd]
    exact ih h
  | case2 => simp at h
  | case3 name last ts hts =>
    match ts, hts with
    | [], _ => simp at h
    | [d], _ =>
      have hd : d.kind = .dot := by simpa using h
      simp [moreSegments, hd, hw]
    | d :: v :: ts, hts => exact (hts d v ts rfl).elim

theorem dottedName?_append_word {w : Token} {a x : List Token} (h : nameOpen a = true)
    (hw : w.kind = .word) : ∃ n, dottedName? (a ++ w :: x) = some (moreSegments n w x) := by
  cases a with
  | nil => exact ⟨w.text, by simp [dottedName?, hw]⟩
  | cons v a =>
    simp only [nameOpen, Bool.and_eq_true, decide_eq_true_eq] at h
    refine ⟨(moreSegments v.text v a).1 ++ ['.'] ++ w.text, ?_⟩
    simp only [List.cons_append, dottedName?, if_pos h.1, moreSegments_append_word h.2 hw]

theorem skipName_word_suffix {w : Token} {a x : List Token} (h : nameOpen a = true)
    (hw : w.kind = .word) : skipName (a ++ w :: x) <:+ x := by
  obtain ⟨n, hn⟩ := dottedName?_append_word h hw
  have hs := moreSegments_suffix n w x
  unfold skipName
  split
  · rename_i hd; rwa [Option.some.inj (hn.symm.trans hd)] at hs
  · rename_i hd; rw [hn] at hd; cases hd

theorem afterStatement_word_suffix {w : Token} {a x : List Token}
    (h : nameOpen (skipIf (·.text = "static") a) = true) (hw : w.kind = .word) :
    afterStatement (a ++ w :: x) <:+ x := by
  have hs : skipName (skipIf (·.text = "static") (a ++ w :: x)) <:+ x := by
    cases a with
    | nil =>
      rw [List.nil_append, skipIf]
      split
      · exact skipName_suffix x
      · exact skipName_word_suffix (a := []) rfl hw
    | cons t a =>
      simp only [List.cons_append, skipIf] at h ⊢
      split at h
      · rename_i ht; rw [if_pos ht]; exact skipName_word_suffix h hw
      · rename_i ht; rw [if_neg ht, ← List.cons_append]; exact skipName_word_suffix h hw
  exact ((skipIf_suffix ..).trans (skipStar_suffix _)).trans hs

theorem annotationRest_word_suffix {w : Token} {a x : List Token} (h : nameOpen a = true)
    (hw : w.kind = .word) : annotationRest (a ++ w :: x) <:+ x := by
  obtain ⟨n, hn⟩ := dottedName?_append_word h hw
  have hs := moreSegments_suffix n w x
  unfold annotationRest
  split
  · rename_i hd; rw [hn] at hd; cases hd
  · rename_i t r hd
    rw [Option.some.inj (hn.symm.trans hd)] at hs
    split
    · exact ((afterClosing_suffix ..).trans (List.suffix_cons t r)).trans hs
    · exact hs
  · exact List.nil_suffix

theorem skipName_change {a x b y : List Token} (h : skipName (a ++ x) = b ++ x)
    (hy : ∀ k ∈ y.head?, k.kind ≠ .dot) (hw : NoWord y ∨ nameOpen a = false) :
    skipName (a ++ y) = b ++ y := by
  unfold skipName at h
  split at h
  · rename_i n l r hd
    subst h
    simp only [skipName, dottedName?_change hd hy hw]
  · rename_i hd
    obtain rfl := List.append_cancel_right h
    simp only [skipName, dottedName?_change_none hd hw]

theorem skipStar_change {a x b y : List Token} (h : skipStar (a ++ x) = b ++ x)
    (hy : Joins x y) : skipStar (a ++ y) = b ++ y := by
  have stop : ∀ {d : Token} {ts : List Token}, (d.kind = .dot → ∀ k ∈ ts.head?, k.text ≠ ['*']) →
      skipStar (d :: ts) = d :: ts := by
    intro d ts hd
    cases ts with
    | nil => rfl
    | cons k ts => simpa [skipStar] using fun hk he => absurd he (hd hk k rfl)
  match a with
  | [] =>
    obtain rfl := eq_nil_of_append_suffix (b := b) (h ▸ skipStar_suffix x)
    cases y with
    | nil => rfl
    | cons k y => exact stop fun hk => absurd hk (hy k rfl).1
  | [d] =>
    have hx : d.kind = .dot → ∀ k ∈ x.head?, k.text ≠ ['*'] := by
      intro hd k hk he
      obtain ⟨x, rfl⟩ := List.head?_eq_some_iff.1 hk
      have hs : skipStar ([d] ++ k :: x) = x := by simp [skipStar, hd, he]
      rw [hs] at h
      exact append_cons_ne b k x h.symm
    rw [List.singleton_append, stop hx] at h
    obtain rfl : [d] = b := List.append_cancel_right h
    refine stop fun hd k hk he => ?_
    obtain ⟨-, -, -, ⟨l, hl, ht⟩ | hn⟩ := hy k hk
    · exact hx hd l hl (ht.trans he)
    · rw [he] at hn; exact hn (by decide)
  | d :: w :: a =>
    simp only [List.cons_append, skipStar] at h ⊢
    split at h
    · rename_i hd
      rw [if_pos hd, List.append_cancel_right h]
    · rename_i hd
      rw [← List.cons_append, ← List.cons_append] at h
      rw [if_neg hd, ← List.append_cancel_right h]
      rfl

theorem afterStatement_change {a x b y : List Token} (h : afterStatement (a ++ x) = b ++ x)
    (hy : Joins x y) (hw : NoWord y ∨ nameOpen (skipIf (·.text = "static") a) = false) :
    afterStatement (a ++ y) = b ++ y := by
  unfold afterStatement at h ⊢
  obtain ⟨c, hc⟩ : ∃ c, skipStar (skipName (skipIf (·.text = "static") (a ++ x))) = c ++ x :=
    append_eq_of_suffix (by rw [← h]; exact skipIf_suffix ..)
  obtain ⟨d, hd⟩ : ∃ d, skipName (skipIf (·.text = "static") (a ++ x)) = d ++ x :=
    append_eq_of_suffix (b := c) (by rw [← hc]; exact skipStar_suffix ..)
  obtain ⟨e, he⟩ : ∃ e, skipIf (·.text = "static") (a ++ x) = e ++ x :=
    append_eq_of_suffix (b := d) (by rw [← hd]; exact skipName_suffix ..)
  have hs : ∀ k ∈ y.head?, (∃ l ∈ x.head?, decide (l.text = ("static" : Text)) =
      decide (k.text = ("static" : Text))) ∨ decide (k.text = ("static" : Text)) = false := by
    intro k hk
    refine (hy k hk).2.2.2.imp (fun ⟨l, hl, ht⟩ => ⟨l, hl, by rw [ht]⟩) fun hn => ?_
    exact decide_eq_false fun he => hn (he ▸ List.mem_cons_self)
  have hn : skipIf (·.text = "static") a = e := by
    have := skipIf_change [] he fun k hk => by cases hk
    rwa [List.append_nil, List.append_nil] at this
  rw [hn] at hw
  rw [skipIf_change y he hs]
  rw [he] at hd
  rw [skipName_change hd (fun k hk => (hy k hk).1) hw]
  rw [he, hd] at hc
  rw [skipStar_change hc hy]
  rw [he, hd, hc] at h
  exact skipIf_change y h fun k hk => .inr (by simp [(hy k hk).2.2.1])

theorem closing?_change {o c : TokenKind} {n : Nat} {k : Token} {a x b : List Token}
    (y : List Token) (h : closing? o c n (a ++ x) = some (k, b ++ x)) :
    closing? o c n (a ++ y) = some (k, b ++ y) := by
  induction a generalizing n with
  | nil =>
    cases eq_nil_of_append_suffix (b := k :: b) (closing?_suffix h)
  | cons t a ih =>
    simp only [List.cons_append, closing?] at h ⊢
    split at h
    · rename_i ho; rw [if_pos ho, ih h]
    · rename_i ho
      rw [if_neg ho]
      split at h
      · rename_i hc
        rw [if_pos hc]
        cases n with
        | zero =>
          simp only [Option.some.injEq, Prod.mk.injEq] at h ⊢
          exact ⟨h.1, by rw [List.append_cancel_right h.2]⟩
        | succ n => exact ih h
      · rename_i hc; rw [if_neg hc, ih h]

theorem headerEnd?_change {n : Nat} {k : Token} {a x b : List Token} (y : List Token)
    (h : headerEnd? n (a ++ x) = some (k, b ++ x)) : headerEnd? n (a ++ y) = some (k, b ++ y) := by
  induction a generalizing n with
  | nil =>
    cases eq_nil_of_append_suffix (b := k :: b) (headerEnd?_suffix h)
  | cons t a ih =>
    simp only [List.cons_append, headerEnd?] at h ⊢
    split at h
    · rename_i ho; rw [if_pos ho, ih h]
    · rename_i ho
      rw [if_neg ho]
      split at h
      · rename_i hc; rw [if_pos hc, ih h]
      · rename_i hc
        rw [if_neg hc]
        split at h
        · rename_i he
          simp only [Option.some.injEq, Prod.mk.injEq] at h
          rw [if_pos he, h.1, List.append_cancel_right h.2]
        · rename_i he; rw [if_neg he, ih h]

theorem afterClosing_change {o c : TokenKind} {n : Nat} {a x b : List Token} (y : List Token)
    (hx : x ≠ []) (h : ((closing? o c n (a ++ x)).map (·.2)).getD [] = b ++ x) :
    ((closing? o c n (a ++ y)).map (·.2)).getD [] = b ++ y := by
  cases hc : closing? o c n (a ++ x) with
  | none =>
    rw [hc] at h
    exact absurd (List.append_eq_nil_iff.1 h.symm).2 hx
  | some p =>
    obtain ⟨k, r⟩ := p
    rw [hc] at h
    obtain rfl : r = b ++ x := h
    rw [closing?_change y hc]
    rfl

theorem annotationRest_change {a x b y : List Token} (hx : x ≠ [])
    (h : annotationRest (a ++ x) = b ++ x) (hy : Joins x y) (hw : NoWord y ∨ nameOpen a = false) :
    annotationRest (a ++ y) = b ++ y := by
  unfold annotationRest at h
  split at h
  · rename_i hd
    obtain rfl := List.append_cancel_right h
    simp only [annotationRest, dottedName?_change_none hd hw]
  · rename_i n l t r hd
    have hs : b ++ x <:+ t :: r := by
      rw [← h]
      split
      · exact (afterClosing_suffix ..).trans (List.suffix_cons t r)
      · exact List.suffix_rfl
    obtain ⟨c, hc⟩ := append_eq_of_suffix hs
    rw [hc] at hd
    simp only [annotationRest, dottedName?_change hd (fun k hk => (hy k hk).1) hw]
    cases c with
    | nil =>
      rw [hc] at hs
      obtain rfl := eq_nil_of_append_suffix hs
      cases y with
      | nil => rfl
      | cons k y => simp [(hy k rfl).2.1]
    | cons t' c =>
      rw [List.cons_append, List.cons.injEq] at hc
      obtain ⟨rfl, rfl⟩ := hc
      simp only [List.cons_append]
      split at h
      · rename_i hk
        rw [if_pos hk, afterClosing_change y hx h]
      · rename_i hk
        rw [← List.cons_append] at h
        rw [if_neg hk, ← List.append_cancel_right h]
        rfl
  · exact absurd (List.append_eq_nil_iff.1 h.symm).2 hx

theorem tailOf_change {last : Nat} {a x b : List Token} {body? : Option Span} {stop : Nat}
    (last' : Nat) (y : List Token) (hx : x ≠ []) (h : tailOf last (a ++ x) = ⟨body?, stop, b ++ x⟩) :
    tailOf last' (a ++ y) = ⟨body?, stop, b ++ y⟩ := by
  have hne : b ++ x ≠ [] := by simp [hx]
  unfold tailOf at h
  split at h
  · simp only [Tail.mk.injEq] at h; exact absurd h.2.2.symm hne
  · rename_i t r he
    obtain ⟨c, rfl⟩ : ∃ c, r = c ++ x := by
      apply append_eq_of_suffix (b := b)
      split at h
      · split at h
        · rename_i hc
          simp only [Tail.mk.injEq] at h
          rw [← h.2.2]
          exact (List.suffix_cons ..).trans (closing?_suffix hc)
        · simp only [Tail.mk.injEq] at h; exact absurd h.2.2.symm hne
      · simp only [Tail.mk.injEq] at h; exact h.2.2 ▸ List.suffix_rfl
    simp only [tailOf, headerEnd?_change y he]
    split at h
    · rename_i hk
      rw [if_pos hk]
      split at h
      · rename_i q r hc
        simp only [Tail.mk.injEq] at h
        obtain ⟨rfl, rfl, rfl⟩ := h
        rw [closing?_change y hc]
      · simp only [Tail.mk.injEq] at h; exact absurd h.2.2.symm hne
    · rename_i hk
      simp only [Tail.mk.injEq] at h
      obtain ⟨rfl, rfl, h⟩ := h
      rw [if_neg hk, List.append_cancel_right h]

theorem declaration?_change {last kw : Nat} {header : Header} {kind : ClassKind} {d : Declaration}
    {a x b : List Token} (last' : Nat) (y : List Token) (hx : x ≠ [])
    (h : declaration? last header kind kw (a ++ x) = some (d, b ++ x)) :
    declaration? last' header kind kw (a ++ y) = some (d, b ++ y) := by
  cases a with
  | nil =>
    cases x with
    | nil => exact absurd rfl hx
    | cons k x => exact (not_suffix_of_length (declaration?_suffix h) (by simp)).elim
  | cons name a =>
    simp only [List.cons_append, declaration?] at h ⊢
    split at h
    · rename_i hk
      obtain ⟨body?, stop, r, ht⟩ : ∃ body? stop r, tailOf last (a ++ x) = ⟨body?, stop, r⟩ :=
        ⟨_, _, _, rfl⟩
      rw [ht] at h
      obtain ⟨rfl, rfl⟩ := Prod.mk.inj (Option.some.inj h)
      rw [if_pos hk, tailOf_change last' y hx ht]
    · cases h

/-- The role of a token looks at no more than the text of the token after an `@`. -/
theorem role_congr {dot : Bool} {t : Token} {ts us : List Token}
    (h : t.kind = .at → (ts.head?.map (·.text) = some ("interface" : Text) ↔
      us.head?.map (·.text) = some ("interface" : Text))) : role dot t ts = role dot t us := by
  unfold role
  by_cases hk : t.kind = .at
  · simp only [h hk]
  · simp only [if_neg hk]

/-- What a role says about the token. -/
def Role.Fits (dot : Bool) (t : Token) (ts : List Token) : Role → Prop
  | .statement => t.kind = .word ∧ (t.text = ("package" : Text) ∨ t.text = ("import" : Text))
  | .annotationUse => t.kind = .at ∧ ts.head?.map (·.text) ≠ some ("interface" : Text)
  | .annotationType => t.kind = .at ∧ ts.head?.map (·.text) = some ("interface" : Text)
  | .modifier => t.kind = .word ∧ t.text ∈ modifiers
  | .keyword kind => t.kind = .word ∧ dot = false ∧ keywordKind? t.text = some kind
  | .block => t.kind = .openBrace
  | .other => t.kind ≠ .at ∧ t.kind ≠ .openBrace

theorem role_fits (dot : Bool) (t : Token) (ts : List Token) :
    (role dot t ts).Fits dot t ts := by
  unfold role
  split
  · rename_i h
    simp only [Token.isWord, Bool.and_eq_true, decide_eq_true_eq] at h
    exact ⟨h.elim And.left And.left, h.imp And.right And.right⟩
  split
  · rename_i hk
    split
    · rename_i hi; exact ⟨hk, hi⟩
    · rename_i hi; exact ⟨hk, hi⟩
  rename_i hat
  split
  · assumption
  split
  · rename_i kind h
    split at h
    · rename_i hw
      refine ⟨hw.1, ?_, h⟩
      simpa using hw.2
    · cases h
  · split
    · assumption
    · rename_i hb; exact ⟨hat, hb⟩

theorem Role.Fits.of_eq {dot : Bool} {t : Token} {ts : List Token} {r : Role}
    (h : role dot t ts = r) : r.Fits dot t ts := h ▸ role_fits dot t ts

namespace Scanner

/-- The state with the tokens `x` behind those it still has to read. -/
def put (s : Scanner) (x : List Token) : Scanner := { s with rest := s.rest ++ x }

/-- Would a word behind the tokens of the state go to the name in the statement that comes next? -/
def awaitsName (s : Scanner) : Bool :=
  match s.rest with
  | [] => false
  | t :: ts =>
    match role s.afterDot t ts with
    | .statement => nameOpen (skipIf (·.text = "static") ts)
    | .annotationUse => nameOpen ts
    | .annotationType => ts.tail.isEmpty
    | .keyword _ => ts.isEmpty
    | _ => false

theorem finish_change {last kw : Nat} {header : Header} {kind : ClassKind} {d? : Option Declaration}
    {a x : List Token} {s : Scanner} (last' : Nat) (y : List Token) (hx : x ≠ [])
    (h : finish last header kind kw (a ++ x) = (d?, s.put x)) (hw : NoWord y ∨ a ≠ []) :
    finish last' header kind kw (a ++ y) = (d?, s.put y) := by
  unfold finish at h
  split at h
  · rename_i d r hd
    obtain ⟨rfl, hs⟩ := Prod.mk.inj h
    obtain ⟨dot, hh, b⟩ := s
    simp only [start, put, Scanner.mk.injEq] at hs
    obtain ⟨rfl, rfl, rfl⟩ := hs
    simp only [finish, declaration?_change last' y hx hd]
    rfl
  · rename_i hd
    obtain ⟨rfl, hs⟩ := Prod.mk.inj h
    obtain ⟨dot, hh, b⟩ := s
    simp only [start, put, Scanner.mk.injEq] at hs
    obtain ⟨rfl, rfl, hs⟩ := hs
    obtain rfl := List.append_cancel_right hs
    have hn : declaration? last' header kind kw (a ++ y) = none := by
      cases a with
      | nil =>
        cases y with
        | nil => rfl
        | cons k y =>
          rcases hw with hw | hw
          · simp [declaration?, hw k rfl]
          · exact absurd rfl hw
      | cons name a =>
        simp only [List.cons_append, declaration?] at hd ⊢
        split at hd
        · cases hd
        · rename_i hk; rw [if_neg hk]
    simp only [finish, hn]
    rfl

theorem put_eq_iff {dot : Bool} {h : Header} {r x : List Token} {s : Scanner} :
    (⟨dot, h, r⟩ : Scanner) = s.put x ↔ s.afterDot = dot ∧ s.header = h ∧ r = s.rest ++ x := by
  obtain ⟨dot', h', b⟩ := s
  simp only [put, Scanner.mk.injEq]
  exact and_congr eq_comm (and_congr_left' eq_comm)

/-- A role that takes none of the tokens `x` is the same before tokens that may come instead. -/
theorem role_put {s : Scanner} {last : Nat} {dot : Bool} {hh : Header} {d? : Option Declaration}
    {t : Token} {ts x y : List Token} (h : step last ⟨dot, hh, t :: (ts ++ x)⟩ = (d?, s.put x))
    (hy : Joins x y) : role dot t (ts ++ x) = role dot t (ts ++ y) := by
  cases ts with
  | cons i ts => exact role_congr fun _ => Iff.rfl
  | nil =>
    refine role_congr fun hk => ⟨fun hx => ?_, fun hi => ?_⟩
    -- the step would have taken the word `interface` from `x`
    · rw [List.nil_append] at h hx
      have hrole : role dot t x = .annotationType := by
        simp only [role, Token.isWord, hk, hx]
        rfl
      simp only [step, hrole] at h
      have hf := finish_suffix last t.start hh .annotationType x.tail
      rw [h] at hf
      cases x with
      | nil => cases hx
      | cons i x => exact (not_suffix_of_length hf (by simp)).elim
    · cases y with
      | nil => cases hi
      | cons k y =>
        have hkt : k.text = ("interface" : Text) := Option.some.inj hi
        rcases (hy k rfl).2.2.2 with ⟨l, hl, ht⟩ | hn
        · rw [List.nil_append, hl, ← hkt, ← ht]; rfl
        · rw [hkt] at hn; exact absurd (by decide) hn

/-- **A step that leaves the tokens `x` alone** does so for tokens `y` that may come instead. -/
theorem step_put {s s' : Scanner} {last : Nat} {d? : Option Declaration} {x y : List Token}
    (last' : Nat) (hs : s.rest ≠ []) (hx : x ≠ []) (h : (s.put x).step last = (d?, s'.put x))
    (hy : Joins x y) (hw : NoWord y ∨ s.awaitsName = false) :
    (s.put y).step last' = (d?, s'.put y) := by
  obtain ⟨dot, hh, _ | ⟨t, ts⟩⟩ := s
  · exact absurd rfl hs
  have hry : role dot t (ts ++ x) = role dot t (ts ++ y) := role_put h hy
  have hr : role dot t (ts ++ x) = role dot t ts := by
    rw [role_put h (Joins.nil x), List.append_nil]
  simp only [awaitsName] at hw
  simp only [put, List.cons_append, step] at h ⊢
  rw [← hry]
  rw [← hr] at hw
  cases hrole : role dot t (ts ++ x) with
  | statement =>
    simp only [hrole, Prod.mk.injEq] at h hw ⊢
    obtain ⟨hd, hst, hh', ha⟩ := h.imp_right put_eq_iff.1
    refine ⟨hd, put_eq_iff.2 ⟨hst, hh', afterStatement_change ha hy hw⟩⟩
  | annotationUse =>
    simp only [hrole, Prod.mk.injEq] at h hw ⊢
    obtain ⟨hd, hst, hh', ha⟩ := h.imp_right put_eq_iff.1
    exact ⟨hd, put_eq_iff.2 ⟨hst, hh', annotationRest_change hx ha hy hw⟩⟩
  | annotationType =>
    simp only [hrole] at h hw ⊢
    have hi := (Role.Fits.of_eq (hr.symm.trans hrole)).2
    cases ts with
    | nil => cases hi
    | cons i ts =>
      exact finish_change last' y hx h (hw.imp_right fun hw => by simpa using hw)
  | modifier =>
    simp only [hrole, Prod.mk.injEq] at h ⊢
    obtain ⟨hd, hst, hh', ha⟩ := h.imp_right put_eq_iff.1
    exact ⟨hd, put_eq_iff.2 ⟨hst, hh', by rw [List.append_cancel_right ha]⟩⟩
  | keyword kind =>
    simp only [hrole] at h hw ⊢
    exact finish_change last' y hx h (hw.imp_right fun hw => by simpa using hw)
  | block =>
    simp only [hrole, Prod.mk.injEq] at h ⊢
    obtain ⟨hd, hst, hh', ha⟩ := h.imp_right put_eq_iff.1
    exact ⟨hd, put_eq_iff.2 ⟨hst, hh', afterClosing_change y hx ha⟩⟩
  | other =>
    simp only [hrole, Prod.mk.injEq] at h ⊢
    obtain ⟨hd, hst, hh', ha⟩ := h.imp_right put_eq_iff.1
    exact ⟨hd, put_eq_iff.2 ⟨hst, hh', by rw [List.append_cancel_right ha]⟩⟩

theorem finish_word_suffix (last kw : Nat) (header : Header) (kind : ClassKind) {w : Token}
    (x : List Token) (hw : w.kind = .word) :
    (finish last header kind kw (w :: x)).2.rest <:+ x := by
  unfold finish
  split
  · rename_i h; exact declaration?_suffix h
  · rename_i h; simp [declaration?, hw] at h

/-- A step that leaves a word that comes next does not wait for a name. -/
theorem awaitsName_eq_false {s s' : Scanner} {last : Nat} {d? : Option Declaration} {w : Token}
    {x : List Token} (hw : w.kind = .word)
    (h : (s.put (w :: x)).step last = (d?, s'.put (w :: x))) : s.awaitsName = false := by
  obtain ⟨dot, hh, _ | ⟨t, ts⟩⟩ := s
  · rfl
  -- what a state that waits leaves of the word and the tokens behind it
  have hno : ∀ {r : List Token}, r <:+ x → r ≠ s'.rest ++ w :: x := by
    rintro r hr rfl
    exact not_suffix_of_length hr (by simp)
  have hr : role dot t (ts ++ w :: x) = role dot t ts := by
    simp only [put, List.cons_append] at h
    rw [role_put h (Joins.nil _), List.append_nil]
  rw [Bool.eq_false_iff]
  intro ha
  simp only [put, List.cons_append, step] at h
  simp only [awaitsName, ← hr] at ha
  cases hrole : role dot t (ts ++ w :: x) with
  | statement =>
    simp only [hrole, Prod.mk.injEq] at h ha
    obtain ⟨-, -, -, hst⟩ := h.imp_right put_eq_iff.1
    exact hno (afterStatement_word_suffix ha hw) hst
  | annotationUse =>
    simp only [hrole, Prod.mk.injEq] at h ha
    obtain ⟨-, -, -, hst⟩ := h.imp_right put_eq_iff.1
    exact hno (annotationRest_word_suffix ha hw) hst
  | annotationType =>
    simp only [hrole] at h ha
    have hi := (Role.Fits.of_eq (hr.symm.trans hrole)).2
    cases ts with
    | nil => cases hi
    | cons i ts =>
      obtain rfl : ts = [] := by simpa using ha
      have hf := finish_word_suffix last t.start hh .annotationType x hw
      rw [List.cons_append, List.tail_cons, List.nil_append] at h
      rw [h] at hf
      exact hno hf rfl
  | keyword kind =>
    simp only [hrole] at h ha
    obtain rfl : ts = [] := by simpa using ha
    have hf := finish_word_suffix last t.start hh kind x hw
    rw [List.nil_append] at h
    rw [h] at hf
    exact hno hf rfl
  | modifier => simp [hrole] at ha
  | block => simp [hrole] at ha
  | other => simp [hrole] at ha

/-! ## Runs over a stretch of tokens -/

/-- The scan goes from the first state to the second and finds the declarations on the way. -/
inductive Runs (last : Nat) : Scanner → List Declaration → Scanner → Prop
  | refl (s : Scanner) : Runs last s [] s
  | step {s s' s'' : Scanner} {d? : Option Declaration} {ds : List Declaration} :
      s.rest ≠ [] → s.step last = (d?, s') → Runs last s' ds s'' →
      Runs last s (d?.toList ++ ds) s''

/-- The state that waits for a name where the tokens end, if the scan comes to one. -/
def pending? (s : Scanner) : Option Scanner :=
  if _h : s.rest = [] then none else if s.awaitsName then some s else pending? (s.step 0).2
termination_by s.rest.length
decreasing_by exact length_step_lt _h

/-- The state with other tokens to read. -/
def withRest (s : Scanner) (x : List Token) : Scanner := { s with rest := x }

@[simp] theorem rest_put (s : Scanner) (x : List Token) : (s.put x).rest = s.rest ++ x := rfl

@[simp] theorem rest_withRest (s : Scanner) (x : List Token) : (s.withRest x).rest = x := rfl

theorem put_nil (s : Scanner) : s.put [] = s := by simp [put]

theorem put_injective {s s' : Scanner} {x : List Token} (h : s.put x = s'.put x) : s = s' := by
  obtain ⟨dot, hh, a⟩ := s
  obtain ⟨dot', hh', a'⟩ := s'
  simp only [put, Scanner.mk.injEq, List.append_cancel_right_eq] at h
  obtain ⟨rfl, rfl, rfl⟩ := h
  rfl

theorem withRest_put {s : Scanner} {x : List Token} (h : s.rest = x) :
    (s.withRest []).put x = s := by subst h; rfl

theorem exists_eq_put {s : Scanner} {x : List Token} (h : x <:+ s.rest) :
    ∃ s' : Scanner, s = s'.put x := by
  obtain ⟨a, ha⟩ := h
  exact ⟨⟨s.afterDot, s.header, a⟩, by simp [put, ha]⟩

theorem run_nil {last : Nat} {s : Scanner} (h : s.rest = []) : s.run last = [] := by
  rw [run, dif_pos h]

theorem run_step {last : Nat} {s s' : Scanner} {d? : Option Declaration} (hs : s.rest ≠ [])
    (h : s.step last = (d?, s')) : s.run last = d?.toList ++ s'.run last := by
  rw [run, dif_neg hs, h]

theorem step_rest_suffix {last : Nat} {s s' : Scanner} {d? : Option Declaration}
    (hs : s.rest ≠ []) (h : s.step last = (d?, s')) : s'.rest <:+ s.rest.tail := by
  obtain ⟨t, ts, hr⟩ := List.exists_cons_of_ne_nil hs
  have hst : (s.step last).2.rest <:+ ts := step_suffix hr
  rw [hr, List.tail_cons]
  rwa [h] at hst

theorem pending?_nil {s : Scanner} (h : s.rest = []) : s.pending? = none := by
  rw [pending?, dif_pos h]

theorem pending?_of_awaitsName {s : Scanner} (hs : s.rest ≠ []) (h : s.awaitsName = true) :
    s.pending? = some s := by
  rw [pending?, dif_neg hs, if_pos h]

theorem pending?_step {s s' : Scanner} {d? : Option Declaration} (hs : s.rest ≠ [])
    (ha : s.awaitsName = false) (h : s.step 0 = (d?, s')) : s.pending? = s'.pending? := by
  rw [pending?, dif_neg hs, ha, h]
  rfl

namespace Runs

theorem trans {last : Nat} {s s' s'' : Scanner} {ds es : List Declaration}
    (h : Runs last s ds s') (h' : Runs last s' es s'') : Runs last s (ds ++ es) s'' := by
  induction h with
  | refl => exact h'
  | step hs hst _ ih => rw [List.append_assoc]; exact .step hs hst (ih h')

theorem suffix {last : Nat} {s s' : Scanner} {ds : List Declaration} (h : Runs last s ds s') :
    s'.rest <:+ s.rest := by
  induction h with
  | refl => exact List.suffix_rfl
  | step hs hst _ ih => exact (ih.trans (step_rest_suffix hs hst)).trans (List.tail_suffix _)

theorem run_eq {last : Nat} {s s' : Scanner} {ds : List Declaration} (h : Runs last s ds s') :
    s.run last = ds ++ s'.run last := by
  induction h with
  | refl => rfl
  | step hs hst _ ih => rw [run_step hs hst, ih, List.append_assoc]

theorem eq_or_step {last : Nat} {s s' : Scanner} {ds : List Declaration} (h : Runs last s ds s') :
    ds = [] ∧ s' = s ∨ ∃ d? s₁ es, s.rest ≠ [] ∧ s.step last = (d?, s₁) ∧ Runs last s₁ es s' ∧
      ds = d?.toList ++ es := by
  cases h with
  | refl => exact .inl ⟨rfl, rfl⟩
  | step hr hst h => exact .inr ⟨_, _, _, hr, hst, h, rfl⟩

/-- Induction on a run that leaves the tokens `x`. -/
theorem put_induction {last : Nat} {s s' : Scanner} {x : List Token} {ds : List Declaration}
    {motive : Scanner → List Declaration → Prop} (h : Runs last (s.put x) ds (s'.put x))
    (refl : motive s' [])
    (step : ∀ (s : Scanner) (d? : Option Declaration) (s₁ : Scanner) (es : List Declaration),
      s.rest ≠ [] → (s.put x).step last = (d?, s₁.put x) → Runs last (s₁.put x) es (s'.put x) →
      motive s₁ es → motive s (d?.toList ++ es)) : motive s ds := by
  generalize hu : s.put x = u at h
  generalize hv : s'.put x = v at h
  induction h generalizing s with
  | refl =>
    obtain rfl : s = s' := put_injective (hu.trans hv.symm)
    exact refl
  | step hr hst h ih =>
    subst hu hv
    obtain ⟨s₁, rfl⟩ := exists_eq_put ((List.suffix_append s'.rest x).trans h.suffix)
    refine step s _ s₁ _ (fun hs => ?_) hst h (ih rfl rfl)
    have hl := (step_rest_suffix hr hst).length_le
    cases x with
    | nil => exact hr (by simp [hs])
    | cons k x => simp [hs] at hl; omega

/-- The step without the tokens that it leaves. -/
theorem step_alone {last : Nat} {s s₁ : Scanner} {x : List Token} {d? : Option Declaration}
    (hs : s.rest ≠ []) (hx : x ≠ []) (h : (s.put x).step last = (d?, s₁.put x)) :
    s.step 0 = (d?, s₁) := by
  have := step_put 0 hs hx h (Joins.nil x) (.inl NoWord.nil)
  rwa [put_nil, put_nil] at this

/-- **A run that leaves the tokens `x`** is the same before tokens `y` that may come instead. -/
theorem change {last : Nat} {s s' : Scanner} {x y : List Token} {ds : List Declaration}
    (last' : Nat) (h : Runs last (s.put x) ds (s'.put x)) (hx : x ≠ []) (hy : Joins x y)
    (hw : NoWord y ∨ (∃ w ∈ x.head?, w.kind = .word) ∨ s.pending? = none) :
    Runs last' (s.put y) ds (s'.put y) := by
  revert hw
  refine h.put_induction (motive := fun s ds =>
      NoWord y ∨ (∃ w ∈ x.head?, w.kind = .word) ∨ s.pending? = none →
      Runs last' (s.put y) ds (s'.put y)) (fun _ => .refl _) fun s d? s₁ es hs hst _ ih hw => ?_
  have ha : NoWord y ∨ s.awaitsName = false := by
    refine hw.imp_right ?_
    rintro (⟨w, hw, hk⟩ | hp)
    · obtain ⟨x, rfl⟩ := List.head?_eq_some_iff.1 hw
      exact awaitsName_eq_false hk hst
    · refine Bool.eq_false_iff.2 fun ha => ?_
      rw [pending?_of_awaitsName hs ha] at hp
      cases hp
  refine .step (by simp [hs]) (step_put last' hs hx hst hy ha) (ih ?_)
  rcases ha with hn | ha
  · exact .inl hn
  · rwa [← pending?_step hs ha (step_alone hs hx hst)]

/-- What waits for a name waits in a state that leaves no word that comes next. -/
theorem pending?_eq {last : Nat} {s s' : Scanner} {w : Token} {x : List Token}
    {ds : List Declaration} (h : Runs last (s.put (w :: x)) ds (s'.put (w :: x)))
    (hw : w.kind = .word) : s.pending? = s'.pending? := by
  refine h.put_induction (motive := fun s _ => s.pending? = s'.pending?) rfl
    fun s d? s₁ es hs hst _ ih => ?_
  have ha := awaitsName_eq_false hw hst
  rw [pending?_step hs ha (step_alone hs (List.cons_ne_nil w x) hst), ih]

/-- A run past the state that waits for a name comes to that state before any other tokens too. -/
theorem to_pending {last : Nat} {s s' q : Scanner} {x : List Token} {ds : List Declaration}
    (h : Runs last (s.put x) ds (s'.put x)) (hs' : s'.rest = []) (hx : x ≠ [])
    (hq : s.pending? = some q) :
    ∃ ds₁ ds₂, ds = ds₁ ++ ds₂ ∧ Runs last (q.put x) ds₂ (s'.put x) ∧ q.rest ≠ [] ∧
      q.awaitsName = true ∧ ∀ last' y, Joins x y → Runs last' (s.put y) ds₁ (q.put y) := by
  revert hq
  refine h.put_induction (motive := fun s ds => s.pending? = some q → ∃ ds₁ ds₂, ds = ds₁ ++ ds₂ ∧
      Runs last (q.put x) ds₂ (s'.put x) ∧ q.rest ≠ [] ∧ q.awaitsName = true ∧
        ∀ last' y, Joins x y → Runs last' (s.put y) ds₁ (q.put y))
    (fun hq => by rw [pending?_nil hs'] at hq; cases hq) fun s d? s₁ es hs hst h ih hq => ?_
  cases ha : s.awaitsName with
  | true =>
    obtain rfl : s = q := by rw [pending?_of_awaitsName hs ha] at hq; exact Option.some.inj hq
    exact ⟨[], _, rfl, .step (by simp [hs]) hst h, hs, ha, fun _ _ _ => .refl _⟩
  | false =>
    rw [pending?_step hs ha (step_alone hs hx hst)] at hq
    obtain ⟨ds₁, ds₂, rfl, h₂, hq', ha', h₁⟩ := ih hq
    refine ⟨d?.toList ++ ds₁, ds₂, (List.append_assoc ..).symm, h₂, hq', ha', fun last' y hy => ?_⟩
    exact .step (by simp [hs]) (step_put last' hs hx hst hy (.inr ha)) (h₁ last' y hy)

/-- The step of a run that reads the last token before `x`. -/
theorem exists_last_step {last : Nat} {s s' : Scanner} {k : Token} {x : List Token}
    {ds : List Declaration} (h : Runs last (s.put (k :: x)) ds s') (hs' : s'.rest = x) :
    ∃ (ds₁ : List Declaration) (l : Scanner) (d? : Option Declaration),
      Runs last (s.put (k :: x)) ds₁ (l.put (k :: x)) ∧
      (l.put (k :: x)).step last = (d?, s') ∧ ds = ds₁ ++ d?.toList := by
  generalize hu : s.put (k :: x) = u at h
  induction h generalizing s with
  | refl =>
    subst hu
    exact absurd hs' (append_cons_ne s.rest k x)
  | @step u u' s' d? es hr hst h ih =>
    subst hu
    by_cases hk : k :: x <:+ u'.rest
    · obtain ⟨s₁, rfl⟩ := exists_eq_put hk
      obtain ⟨ds₁, l, d₁?, hrun, hl, rfl⟩ := ih hs' rfl
      exact ⟨_, l, d₁?, .step hr hst hrun, hl, (List.append_assoc ..).symm⟩
    · have hu : u'.rest <:+ s.rest ++ k :: x :=
        (step_rest_suffix hr hst).trans (List.tail_suffix _)
      have hle : u'.rest.length ≤ x.length := by
        refine Nat.not_lt.1 fun hlt => hk ?_
        exact List.suffix_of_suffix_length_le (List.suffix_append s.rest (k :: x)) hu hlt
      cases h with
      | refl => exact ⟨[], s, d?, .refl _, hst, by simp⟩
      | step hr' hst' h' =>
        -- no step leaves all that there is
        have hlt : (u'.step last).2.rest.length < u'.rest.length := length_step_lt hr'
        simp only [hst'] at hlt
        have := h'.suffix.length_le
        rw [hs'] at this
        omega

end Runs

end Scanner

end QuickFix.Source
