import QuickFix.Proofs.Source.Placing

/-!
# Braces counted

Which brace closes the one at an index can be told by a count of the braces from there on: the first
one behind which as many have closed as opened (`ClosesAt`). Two counts look for it. `bracesStop` goes
over the tokens with the number of braces that are open and stops where none is left, and `balance` is
the difference over all that follows, by which `bodyStop?` tells a body that the last token closes from
one that nothing closes.

Both are a search that stands at an index with the count so far (`StandsAt`): a step goes on with the
next count or comes to the brace that closes, and at the end no brace has closed (`Search`).
`StandsAt.bracesStop_eq` and `StandsAt.closing?_eq` carry that through the search by index and through
`closing?`, and `braces_counted` puts the counts together.
-/

namespace QuickFix

namespace Source

/-! ## Counts -/

/-- What a token adds to the number of braces that are open. -/
def Token.brace (k : Token) : Int :=
  if k.kind = .openBrace then 1 else if k.kind = .closeBrace then -1 else 0

/-- How many more braces the tokens open than they close. -/
def balance (ks : List Token) : Int := ks.foldl (fun n k => n + k.brace) 0

/-- The tokens from index `i` on that stand before index `j`. -/
def between (ks : List Token) (i j : Nat) : List Token := (ks.take j).drop i

/-- Index behind the brace that closes the last of `depth` open ones, searched from index `i` on, or the
number of tokens. -/
def bracesStop (ks : List Token) (depth i : Nat) : Nat :=
  if _h : i < ks.length then
    if ks[i].kind = .openBrace then bracesStop ks (depth + 1) (i + 1)
    else if ks[i].kind = .closeBrace then
      if depth - 1 = 0 then i + 1 else bracesStop ks (depth - 1) (i + 1)
    else bracesStop ks depth (i + 1)
  else ks.length
termination_by ks.length - i

/-- Where the body stops whose brace is at index `i`, in a text that ends at offset `last`: with the
token before the index that the search comes to, if that is not the end of the tokens or all braces
from `i` on are balanced. There is no result if there is no such token. -/
def bodyStop? (last : Nat) (ks : List Token) (i : Nat) : Option Nat :=
  let after := bracesStop ks 0 i
  if after < ks.length ∨ balance (ks.drop i) = 0 then ks[after - 1]?.map Token.stop else some last

/-- The token at index `j` is the first behind which the braces from index `i` on are balanced. -/
structure ClosesAt (ks : List Token) (i j : Nat) : Prop where
  le : i ≤ j
  lt_length : j < ks.length
  balanced : balance (between ks i (j + 1)) = 0
  first : ∀ l, i ≤ l → l < j → balance (between ks i (l + 1)) ≠ 0

theorem ClosesAt.unique {ks : List Token} {i j j' : Nat} (h : ClosesAt ks i j)
    (h' : ClosesAt ks i j') : j = j' := by
  rcases Nat.lt_trichotomy j j' with hlt | heq | hlt
  · exact absurd h.balanced (h'.first j h.le hlt)
  · exact heq
  · exact absurd h'.balanced (h.first j' h'.le hlt)

theorem balance_between_succ {ks : List Token} {i j : Nat} (hij : i ≤ j) (hj : j < ks.length) :
    balance (between ks i (j + 1)) = balance (between ks i j) + ks[j].brace := by
  have hlength : i ≤ (ks.take j).length := by rw [List.length_take]; omega
  rw [between, between, List.take_add_one, List.getElem?_eq_getElem hj,
    List.drop_append_of_le_length hlength]
  exact List.foldl_append

theorem brace_of_openBrace {k : Token} (h : k.kind = .openBrace) : k.brace = 1 := by
  rw [Token.brace, if_pos h]

theorem brace_of_closeBrace {k : Token} (h : k.kind = .closeBrace) : k.brace = -1 := by
  rw [Token.brace, h]
  rfl

theorem brace_of_other {k : Token} (ho : k.kind ≠ .openBrace) (hc : k.kind ≠ .closeBrace) :
    k.brace = 0 := by
  rw [Token.brace, if_neg ho, if_neg hc]

/-! ## Tokens by index -/

theorem of_drop_eq_cons {ks ts : List Token} {t : Token} {j : Nat} (h : ks.drop j = t :: ts) :
    ∃ hj : j < ks.length, ks[j] = t ∧ ks.drop (j + 1) = ts := by
  have hj : j < ks.length := by
    refine Decidable.byContradiction fun hj => ?_
    rw [List.drop_eq_nil_of_le (Nat.le_of_not_lt hj)] at h
    cases h
  rw [List.drop_eq_getElem_cons hj] at h
  obtain ⟨ht, hts⟩ := List.cons.inj h
  exact ⟨hj, ht, hts⟩

/-- A token behind which a reader goes on, by its index. -/
theorem exists_index_of_suffix {ks ts : List Token} {t : Token} {m : Nat}
    (h : t :: ts <:+ ks.drop m) : ∃ i, m ≤ i ∧ ks[i]? = some t ∧ ks.drop (i + 1) = ts := by
  obtain ⟨pre, hpre⟩ := h
  have hdrop : ks.drop (m + pre.length) = t :: ts := by
    rw [← List.drop_drop, ← hpre, List.drop_left]
  obtain ⟨hi, ht, hts⟩ := of_drop_eq_cons hdrop
  exact ⟨m + pre.length, Nat.le_add_right .., by rw [List.getElem?_eq_getElem hi, ht], hts⟩

/-! ## A search -/

/-- A search for the brace that closes the one at index `i` stands at index `j` with `depth` braces
open. -/
structure StandsAt (ks : List Token) (i depth j : Nat) : Prop where
  lt : i < j
  depth_pos : 0 < depth
  depth_eq : balance (between ks i j) = depth
  notClosed : ∀ l, i ≤ l → l < j → balance (between ks i (l + 1)) ≠ 0

/-- What a search comes to: the index of the brace that closes, if there is one. -/
inductive Search (ks : List Token) (i : Nat) : Option Nat → Prop
  | closed {j : Nat} (h : ClosesAt ks i j) (hj : ∃ c, ks[j]? = some c ∧ c.kind = .closeBrace) :
    Search ks i (some j)
  | unclosed (h : ∀ j, i ≤ j → j < ks.length → balance (between ks i (j + 1)) ≠ 0) :
    Search ks i none

theorem Search.eq_some_iff {ks : List Token} {i j : Nat} {r : Option Nat} (h : Search ks i r) :
    r = some j ↔ ClosesAt ks i j := by
  cases h with
  | closed h => exact ⟨fun hj => Option.some.inj hj ▸ h, fun hj => congrArg some (h.unique hj)⟩
  | unclosed hall =>
    refine ⟨fun hj => ?_, fun hj => ?_⟩
    · cases hj
    · exact absurd hj.balanced (hall j hj.le hj.lt_length)

theorem Search.eq_none_iff {ks : List Token} {i : Nat} {r : Option Nat} (h : Search ks i r) :
    r = none ↔ ¬∃ j, ClosesAt ks i j := by
  rw [Option.eq_none_iff_forall_ne_some, not_exists]
  exact forall_congr' fun j => not_congr h.eq_some_iff

theorem Search.unique {ks : List Token} {i : Nat} {r r' : Option Nat} (h : Search ks i r)
    (h' : Search ks i r') : r = r' :=
  Option.ext fun _ => h.eq_some_iff.trans h'.eq_some_iff.symm

namespace StandsAt

variable {ks : List Token} {i depth j : Nat}

/-- A search that begins at a brace has that one open. -/
theorem first (hi : i < ks.length) (h : ks[i].kind = .openBrace) : StandsAt ks i 1 (i + 1) := by
  have hempty : balance (between ks i i) = 0 := by
    rw [between, List.drop_eq_nil_of_le (List.length_take_le i ks)]
    rfl
  have hone : balance (between ks i (i + 1)) = 1 := by
    rw [balance_between_succ (Nat.le_refl i) hi, hempty, brace_of_openBrace h]
    rfl
  refine ⟨Nat.lt_succ_self i, Nat.one_pos, hone, fun l hil hl => ?_⟩
  obtain rfl : l = i := by omega
  rw [hone]
  decide

/-- A step that leaves braces open. -/
theorem next {depth' : Nat} (h : StandsAt ks i depth j) (hj : j < ks.length) (hpos : 0 < depth')
    (hdepth : (depth' : Int) = depth + ks[j].brace) : StandsAt ks i depth' (j + 1) := by
  have heq : balance (between ks i (j + 1)) = depth' := by
    rw [balance_between_succ (Nat.le_of_lt h.lt) hj, h.depth_eq, hdepth]
  refine ⟨Nat.lt_succ_of_lt h.lt, hpos, heq, fun l hil hl => ?_⟩
  by_cases hlj : l = j
  · rw [hlj, heq]
    omega
  · exact h.notClosed l hil (by omega)

/-- A step that closes the only open brace. -/
theorem closesAt (h : StandsAt ks i 1 j) (hj : j < ks.length) (hc : ks[j].kind = .closeBrace) :
    Search ks i (some j) := by
  refine .closed ⟨Nat.le_of_lt h.lt, hj, ?_, h.notClosed⟩ ⟨ks[j], List.getElem?_eq_getElem hj, hc⟩
  rw [balance_between_succ (Nat.le_of_lt h.lt) hj, h.depth_eq, brace_of_closeBrace hc]
  rfl

/-- At the end of the tokens no brace has closed. -/
theorem unclosed (h : StandsAt ks i depth j) (hj : ks.length ≤ j) : Search ks i none :=
  .unclosed fun l hil hl => h.notClosed l hil (Nat.lt_of_lt_of_le hl hj)

theorem bracesStop_eq (h : StandsAt ks i depth j) :
    ∃ r, Search ks i r ∧ bracesStop ks depth j = r.elim ks.length (· + 1) := by
  fun_induction bracesStop ks depth j with
  | case1 depth j hj ho ih =>
    refine ih (h.next hj (Nat.succ_pos depth) ?_)
    rw [brace_of_openBrace ho]
    omega
  | case2 depth j hj _ hc hlast =>
    -- no difference is cut off at zero: a brace is open
    obtain rfl : depth = 1 := by have := h.depth_pos; omega
    exact ⟨some j, h.closesAt hj hc, rfl⟩
  | case3 depth j hj _ hc hmore ih =>
    refine ih (h.next hj (Nat.pos_of_ne_zero hmore) ?_)
    rw [brace_of_closeBrace hc]
    omega
  | case4 depth j hj ho hc ih =>
    refine ih (h.next hj h.depth_pos ?_)
    rw [brace_of_other ho hc, Int.add_zero]
  | case5 depth j hj => exact ⟨none, h.unclosed (Nat.le_of_not_lt hj), rfl⟩

theorem closing?_eq (h : StandsAt ks i (depth + 1) j) :
    ∃ r, Search ks i r ∧ closing? .openBrace .closeBrace depth (ks.drop j) =
      r.bind fun l => ks[l]?.map fun c => (c, ks.drop (l + 1)) := by
  generalize hts : ks.drop j = ts
  fun_induction closing? .openBrace .closeBrace depth ts generalizing j with
  | case1 => exact ⟨none, h.unclosed (List.drop_eq_nil_iff.1 hts), rfl⟩
  | case2 depth t ts ho ih =>
    obtain ⟨hj, rfl, hnext⟩ := of_drop_eq_cons hts
    refine ih (h.next hj (Nat.succ_pos _) ?_) hnext
    rw [brace_of_openBrace ho]
    omega
  | case3 t ts _ hc =>
    obtain ⟨hj, rfl, rfl⟩ := of_drop_eq_cons hts
    refine ⟨some j, h.closesAt hj hc, ?_⟩
    rw [Option.bind_some, List.getElem?_eq_getElem hj]
    rfl
  | case4 t ts _ hc depth ih =>
    obtain ⟨hj, rfl, hnext⟩ := of_drop_eq_cons hts
    refine ih (h.next hj (Nat.succ_pos depth) ?_) hnext
    rw [brace_of_closeBrace hc]
    omega
  | case5 depth t ts ho hc ih =>
    obtain ⟨hj, rfl, hnext⟩ := of_drop_eq_cons hts
    refine ih (h.next hj (Nat.succ_pos depth) ?_) hnext
    rw [brace_of_other ho hc, Int.add_zero]

end StandsAt

/-! ## From the brace on -/

section

variable {ks : List Token} {i : Nat} {k : Token} (hk : ks[i]? = some k) (ho : k.kind = .openBrace)

include hk ho

/-- Both searches come to the same brace, or to none. -/
theorem exists_search : ∃ r, Search ks i r ∧ bracesStop ks 0 i = r.elim ks.length (· + 1) ∧
    closing? .openBrace .closeBrace 0 (ks.drop (i + 1)) =
      r.bind fun j => ks[j]?.map fun c => (c, ks.drop (j + 1)) := by
  obtain ⟨hi, rfl⟩ := List.getElem?_eq_some_iff.1 hk
  have hfirst := StandsAt.first hi ho
  obtain ⟨r, hr, hstop⟩ := hfirst.bracesStop_eq
  obtain ⟨r', hr', hclosing⟩ := hfirst.closing?_eq
  obtain rfl := hr.unique hr'
  refine ⟨r, hr, ?_, hclosing⟩
  rw [bracesStop, dif_pos hi, if_pos ho]
  exact hstop

/-- The count over all that follows decides only where the search comes to the end of the tokens, and
there it tells whether a brace has closed. -/
theorem balanced_iff : (bracesStop ks 0 i < ks.length ∨ balance (ks.drop i) = 0) ↔
    ∃ j, ClosesAt ks i j := by
  obtain ⟨hi, -⟩ := List.getElem?_eq_some_iff.1 hk
  have hrest : between ks i ks.length = ks.drop i := by rw [between, List.take_length]
  obtain ⟨r, hr, hstop, -⟩ := exists_search hk ho
  rw [hstop, ← hrest]
  cases hr with
  | @closed j h =>
    refine ⟨fun _ => ⟨j, h⟩, fun _ => ?_⟩
    rcases Nat.lt_or_eq_of_le (Nat.succ_le_of_lt h.lt_length) with hlt | hlast
    · exact .inl hlt
    · exact .inr (hlast ▸ h.balanced)
  | unclosed hall =>
    refine ⟨fun h => ?_, fun h => absurd h ((Search.unclosed hall).eq_none_iff.1 rfl)⟩
    have hlast := hall (ks.length - 1) (by omega) (by omega)
    rw [Nat.sub_add_cancel (by omega)] at hlast
    exact absurd (h.resolve_left (Nat.lt_irrefl _)) hlast

end

/-! ## Bodies -/

/-- The stretch is a body in a text that ends at offset `last`: its brace is at index `i` of the tokens,
it ends with the token that closes that brace or, if none does, with the text, and `rest` follows it. -/
structure BodyAt (last : Nat) (ks : List Token) (i : Nat) (body : Span) (rest : List Token) :
    Prop where
  brace : ∃ k, ks[i]? = some k ∧ k.kind = .openBrace ∧ body.start = k.start
  closed : ∀ j c, ClosesAt ks i j → ks[j]? = some c → body.stop = c.stop
  unclosed : (¬∃ j, ClosesAt ks i j) → body.stop = last
  counted : bodyStop? last ks i = some body.stop
  rest_eq : rest = ks.drop (bracesStop ks 0 i)

theorem exists_bodyAt_of_tailOf {last m : Nat} {ks : List Token} {body : Span}
    (h : (tailOf last (ks.drop m)).body? = some body) :
    ∃ i, m ≤ i ∧ BodyAt last ks i body (tailOf last (ks.drop m)).rest := by
  cases he : headerEnd? 0 (ks.drop m) with
  | none => simp only [tailOf, he, reduceCtorEq] at h
  | some p =>
    obtain ⟨k, ts⟩ := p
    obtain ⟨i, hm, hk, rfl⟩ := exists_index_of_suffix (headerEnd?_suffix he)
    have ho : k.kind = .openBrace := by
      refine Decidable.byContradiction fun hne => ?_
      simp only [tailOf, he, if_neg hne, reduceCtorEq] at h
    obtain ⟨r, hr, hstop, hclosing⟩ := exists_search hk ho
    have hiff := balanced_iff hk ho
    refine ⟨i, hm, ?_⟩
    cases hr with
    | @closed j hcloses hj =>
      obtain ⟨c, hc, -⟩ := hj
      simp only [tailOf, he, if_pos ho, hclosing, Option.bind_some, hc, Option.map_some] at h ⊢
      obtain rfl := Option.some.inj h
      refine ⟨⟨k, hk, ho, rfl⟩, fun j' c' hj' hc' => ?_, fun hn => absurd ⟨j, hcloses⟩ hn, ?_, ?_⟩
      · obtain rfl := hcloses.unique hj'
        rw [hc] at hc'
        rw [Option.some.inj hc']
      · rw [bodyStop?, if_pos (hiff.2 ⟨j, hcloses⟩), hstop]
        simp [hc]
      · rw [hstop]
        rfl
    | unclosed hall =>
      have hn : ¬∃ j, ClosesAt ks i j := (Search.unclosed hall).eq_none_iff.1 rfl
      simp only [tailOf, he, if_pos ho, hclosing, Option.bind_none] at h ⊢
      obtain rfl := Option.some.inj h
      refine ⟨⟨k, hk, ho, rfl⟩, fun j c hj => absurd ⟨j, hj⟩ hn, fun _ => rfl, ?_, ?_⟩
      · rw [bodyStop?, if_neg (mt hiff.1 hn)]
      · rw [hstop]
        exact (List.drop_length ..).symm

theorem exists_bodyAt_of_declaration? {last keyword n : Nat} {header : Header} {kind : ClassKind}
    {ks rest : List Token} {d : Declaration} {body : Span}
    (h : declaration? last header kind keyword (ks.drop n) = some (d, rest))
    (hb : d.bodySpan? = some body) : ∃ i, n < i ∧ BodyAt last ks i body rest := by
  obtain ⟨name, ts, hts, -, rfl, rfl⟩ := declaration?_eq_some h
  obtain ⟨-, -, rfl⟩ := of_drop_eq_cons hts
  exact exists_bodyAt_of_tailOf hb

end Source

open Source

/-- **The two counts of braces agree.** The search from a brace comes to the index behind the first
token at which the braces from there on are balanced, a closing brace, or to the end of the tokens if
there is none, and so does `closing?`. The count over all that follows tells the one from the other
where that token is the last. So a body ends with the closing brace exactly if there is one, and with
the text otherwise. -/
theorem braces_counted :
    (∀ ks i k, ks[i]? = some k → k.kind = .openBrace →
      (∀ j, ClosesAt ks i j → bracesStop ks 0 i = j + 1 ∧ ∃ c, ks[j]? = some c ∧
        c.kind = .closeBrace ∧
        closing? .openBrace .closeBrace 0 (ks.drop (i + 1)) = some (c, ks.drop (j + 1))) ∧
      ((¬∃ j, ClosesAt ks i j) → bracesStop ks 0 i = ks.length ∧
        closing? .openBrace .closeBrace 0 (ks.drop (i + 1)) = none) ∧
      ((bracesStop ks 0 i < ks.length ∨ balance (ks.drop i) = 0) ↔ ∃ j, ClosesAt ks i j)) ∧
    (∀ last header kind keyword ks n d rest body,
      declaration? last header kind keyword (ks.drop n) = some (d, rest) →
      d.bodySpan? = some body → ∃ i, n < i ∧ BodyAt last ks i body rest) ∧
    ∀ t, ∀ d ∈ declarations t, ∀ body ∈ d.bodySpan?,
      ∃ i rest, BodyAt (Text.bytes t) (tokens t) i body rest := by
  refine ⟨fun ks i k hk ho => ⟨fun j hj => ?_, fun hn => ?_, balanced_iff hk ho⟩, ?_, ?_⟩
  · obtain ⟨r, hr, hstop, hclosing⟩ := exists_search hk ho
    obtain rfl := hr.eq_some_iff.2 hj
    cases hr with
    | closed _ hbrace =>
      obtain ⟨c, hc, hkind⟩ := hbrace
      exact ⟨hstop, c, hc, hkind, by rw [hclosing, Option.bind_some, hc]; rfl⟩
  · obtain ⟨r, hr, hstop, hclosing⟩ := exists_search hk ho
    obtain rfl := hr.eq_none_iff.2 hn
    exact ⟨hstop, hclosing⟩
  · exact fun last header kind keyword ks n d rest body => exists_bodyAt_of_declaration?
  · intro t d hd body hb
    obtain ⟨header, kind, keyword, us, rest, hus, hread⟩ := exists_declaration?_of_mem hd
    rw [List.suffix_iff_eq_drop.1 hus] at hread
    obtain ⟨i, -, hbody⟩ := exists_bodyAt_of_declaration? hread hb
    exact ⟨i, rest, hbody⟩

/-- The brace that closes is the last token, so that the search comes to the end of the tokens although
there is one; a blank is left of the text. -/
theorem braces_counted_last :
    let t : Text := "class A \x7b \x7b \x7d \x7d "
    let ks := tokens t
    let d : Declaration := ⟨['A'], .plain, .package, none, 0, ⟨0, 15⟩, ⟨6, 7⟩, some ⟨8, 15⟩⟩
    (ClosesAt ks 2 5 ∧ ks.length = 6 ∧ bracesStop ks 0 2 = 6 ∧ balance (ks.drop 2) = 0) ∧
      declarations t = [d] ∧ declaration? 16 .empty .plain 0 (ks.drop 1) = some (d, []) ∧
      ∃ i, 1 < i ∧ BodyAt 16 ks i ⟨8, 15⟩ [] := by
  intro t ks d
  have hks : ks = [⟨.word, 0, "class"⟩, ⟨.word, 6, "A"⟩, ⟨.openBrace, 8, "\x7b"⟩,
      ⟨.openBrace, 10, "\x7b"⟩, ⟨.closeBrace, 12, "\x7d"⟩, ⟨.closeBrace, 14, "\x7d"⟩] := by
    decide +kernel
  have hcloses : ClosesAt ks 2 5 := by
    rw [hks]
    refine ⟨by decide, by decide, by decide, fun l hl hl' => ?_⟩
    obtain rfl | rfl | rfl : l = 2 ∨ l = 3 ∨ l = 4 := by omega
    all_goals decide
  have hlength : ks.length = 6 := by rw [hks]; rfl
  have hbalance : balance (ks.drop 2) = 0 := by rw [hks]; decide
  have hd : declaration? 16 .empty .plain 0 (ks.drop 1) = some (d, []) := by rw [hks]; decide
  have hds : declarations t = [d] := by decide +kernel
  obtain ⟨hcount, hbody, -⟩ := braces_counted
  obtain ⟨hstop, -⟩ := (hcount ks 2 ⟨.openBrace, 8, "\x7b"⟩ (by rw [hks]; rfl) rfl).1 5 hcloses
  exact ⟨⟨hcloses, hlength, hstop, hbalance⟩, hds, hd, hbody 16 .empty .plain 0 ks 1 d [] ⟨8, 15⟩ hd rfl⟩

end QuickFix
