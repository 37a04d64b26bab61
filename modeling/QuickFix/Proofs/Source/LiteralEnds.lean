import Mathlib.Algebra.Group.Nat.Even
import QuickFix.Proofs.Source.Bytewise

/-!
# Where a literal of one line ends

The scan goes over the bytes of a literal by one, and by two at a backslash. So it comes to an offset
exactly if an even number of backslashes stands before it, and the first quote or line feed at such an
offset ends the literal (`StopsAt`). `quotedStop_stopsAt` carries that through the loop; `Visits` are
the offsets at which the scan begins a turn, and `literal_stops` is about every quote that it meets
there.
-/

namespace QuickFix

namespace Source.Bytewise

open Text

/-! ## The first sign that counts -/

/-- The bytes of the literal that opens at offset `i`, behind its first quote and before offset `k`. -/
def inside (os : List Char) (i k : Nat) : List Char := (os.take k).drop (i + 1)

/-- How many backslashes there are in a row at the end of some bytes. -/
def backslashes (os : List Char) : Nat := (os.reverse.takeWhile (· = '\\')).length

/-- At offset `k` of the bytes, in the literal that opens with the quote `q` at offset `i`, there is a
quote or a line feed with an even number of backslashes before it. -/
def IsFree (q : Char) (os : List Char) (i k : Nat) : Prop :=
  i < k ∧ (os[k]? = some q ∨ os[k]? = some '\n') ∧ Even (backslashes (inside os i k))

/-- Where the literal stops that opens with the quote `q` at offset `i` of the bytes: right behind its
first free sign if that is a quote, right before it if that is a line feed, and at the end of the bytes
if it has none. -/
inductive StopsAt (q : Char) (os : List Char) (i : Nat) : Nat → Prop
  | quote {k : Nat} (hk : IsFree q os i k) (hfirst : ∀ l, IsFree q os i l → k ≤ l)
    (hq : os[k]? = some q) : StopsAt q os i (k + 1)
  | lineFeed {k : Nat} (hk : IsFree q os i k) (hfirst : ∀ l, IsFree q os i l → k ≤ l)
    (hn : os[k]? = some '\n') : StopsAt q os i k
  | unclosed (h : ∀ k, ¬IsFree q os i k) : StopsAt q os i os.length

theorem inside_first (os : List Char) (i : Nat) : inside os i (i + 1) = [] := by
  rw [inside, List.drop_eq_nil_of_le]
  exact List.length_take_le _ _

theorem inside_succ {os : List Char} {i k : Nat} (hik : i < k) (hk : k < os.length) :
    inside os i (k + 1) = inside os i k ++ [os[k]] := by
  have hlength : i + 1 ≤ (os.take k).length := by rw [List.length_take]; omega
  rw [inside, inside, List.take_add_one, List.getElem?_eq_getElem hk,
    List.drop_append_of_le_length hlength]
  rfl

theorem backslashes_append_backslash (os : List Char) :
    backslashes (os ++ ['\\']) = backslashes os + 1 := by
  simp [backslashes]

theorem backslashes_append_of_ne {o : Char} (h : o ≠ '\\') (os : List Char) :
    backslashes (os ++ [o]) = 0 := by
  simp [backslashes, h]

section

variable {q : Char} {os : List Char} {i k : Nat}

/-- Behind a character that is no backslash there are none in a row. -/
theorem even_inside_of_ne (hik : i < k) (hk : k < os.length) (h : os[k] ≠ '\\') :
    Even (backslashes (inside os i (k + 1))) := by
  rw [inside_succ hik hk, backslashes_append_of_ne h]
  exact Even.zero

theorem not_even_inside (hik : i < k) (hk : k < os.length) (h : os[k] = '\\')
    (heven : Even (backslashes (inside os i k))) :
    ¬Even (backslashes (inside os i (k + 1))) := by
  rw [inside_succ hik hk, h, backslashes_append_backslash, Nat.even_add_one]
  exact not_not_intro heven

/-- Two bytes from a backslash that counts the number is even again. -/
theorem even_inside_of_escaped (hik : i < k) (hk : k + 1 < os.length) (h : os[k] = '\\')
    (heven : Even (backslashes (inside os i k))) :
    Even (backslashes (inside os i (k + 2))) := by
  by_cases hnext : os[k + 1] = '\\'
  · have hodd := not_even_inside hik (by omega) h heven
    rw [inside_succ (by omega) hk, hnext, backslashes_append_backslash, Nat.even_add_one]
    exact hodd
  · exact even_inside_of_ne (by omega) hk hnext

theorem IsFree.lt_length (h : IsFree q os i k) : k < os.length := by
  rcases h.2.1 with h | h
  · exact (List.getElem?_eq_some_iff.1 h).1
  · exact (List.getElem?_eq_some_iff.1 h).1

theorem not_isFree_of_ne (hk : k < os.length) (hfeed : os[k] ≠ '\n') (hq : os[k] ≠ q) :
    ¬IsFree q os i k := by
  rintro ⟨-, hsign, -⟩
  rw [List.getElem?_eq_getElem hk, Option.some.injEq, Option.some.injEq] at hsign
  exact hsign.elim hq hfeed

/-- The loop comes to offsets only with an even number of backslashes before them, and leaves no free
sign behind. -/
theorem quotedStop_stopsAt (hq : q ≠ '\\') (hik : i < k)
    (heven : k ≤ os.length → Even (backslashes (inside os i k)))
    (hfirst : ∀ l, IsFree q os i l → k ≤ l) : StopsAt q os i (quotedStop q os k) := by
  fun_induction quotedStop q os k with
  | case1 k hk hslash ih =>
    have hself : ¬IsFree q os i k := by
      refine not_isFree_of_ne hk ?_ ?_
      · rw [hslash]
        decide
      · rw [hslash]
        exact Ne.symm hq
    have hescaped : ¬IsFree q os i (k + 1) := fun hl =>
      not_even_inside hik hk hslash (heven (Nat.le_of_lt hk)) hl.2.2
    refine ih (by omega) (fun hle => ?_) fun l hl => ?_
    · exact even_inside_of_escaped hik (by omega) hslash (heven (by omega))
    · have hle := hfirst l hl
      have hne : l ≠ k := fun h => hself (h ▸ hl)
      have hne' : l ≠ k + 1 := fun h => hescaped (h ▸ hl)
      omega
  | case2 k hk _ hfeed =>
    have hsign : os[k]? = some '\n' := by rw [List.getElem?_eq_getElem hk, hfeed]
    exact .lineFeed ⟨hik, .inr hsign, heven (Nat.le_of_lt hk)⟩ hfirst hsign
  | case3 k hk _ _ hquote =>
    have hsign : os[k]? = some q := by rw [List.getElem?_eq_getElem hk, hquote]
    exact .quote ⟨hik, .inl hsign, heven (Nat.le_of_lt hk)⟩ hfirst hsign
  | case4 k hk hslash hfeed hquote ih =>
    refine ih (by omega) (fun _ => even_inside_of_ne hik hk hslash) fun l hl => ?_
    have hle := hfirst l hl
    have hne : l ≠ k := fun h => not_isFree_of_ne hk hfeed hquote (h ▸ hl)
    omega
  | case5 k hk =>
    refine .unclosed fun l hl => hk ?_
    exact Nat.lt_of_le_of_lt (hfirst l hl) hl.lt_length

/-- Read on from the first quote. -/
theorem quotedStop_first (hq : q ≠ '\\') (os : List Char) (i : Nat) :
    StopsAt q os i (quotedStop q os (i + 1)) := by
  refine quotedStop_stopsAt hq (Nat.lt_succ_self i) (fun _ => ?_) fun l hl => hl.1
  rw [inside_first]
  exact Even.zero

end

/-! ## Where turns begin -/

/-- The offsets of a text at which the scan begins a turn or ends. -/
inductive Visits (t : Text) : Nat → Prop
  | start : Visits t 0
  | next {i j : Nat} {kind? : Option TokenKind} (h : Visits t i)
    (hturn : turn? t i = some (kind?, j)) : Visits t j

/-- The bytes of the text have the quote `q` twice more behind offset `i`. -/
def OpensBlock (q : Char) (t : Text) (i : Nat) : Prop :=
  (octets t)[i + 1]? = some q ∧ (octets t)[i + 2]? = some q

theorem turn?_eq_none (t : Text) : turn? t (bytes t) = none := by
  have hget : (octets t)[bytes t]? = none := by
    rw [← length_octets, List.getElem?_eq_none_iff]
  rw [turn?, hget]
  rfl

/-- Turns begin between pieces. -/
theorem Visits.exists_split {t : Text} {i : Nat} (h : Visits t i) :
    ∃ ps qs, pieces t = ps ++ qs ∧ bytes (ps.flatMap Piece.text) = i := by
  induction h with
  | start => exact ⟨[], pieces t, rfl, rfl⟩
  | @next i j kind? _ hturn ih =>
    obtain ⟨ps, qs, hps, rfl⟩ := ih
    have ht := eq_append_of_pieces hps
    cases qs with
    | nil =>
      rw [List.flatMap_nil, List.append_nil] at ht
      rw [← ht, turn?_eq_none] at hturn
      cases hturn
    | cons p qs =>
      obtain ⟨-, hq, -⟩ := pieces_of_append hps
      obtain ⟨hflat, ⟨c, u, hu, hfirst⟩, -⟩ := pieces_cons hq
      rw [hflat, hu, List.cons_append] at ht
      rw [ht, turn?_append, hfirst] at hturn
      refine ⟨ps ++ [p], qs, by rw [hps, List.append_assoc]; rfl, ?_⟩
      rw [List.flatMap_append, List.flatMap_singleton, bytes_append]
      exact congrArg Prod.snd (Option.some.inj hturn)

/-- What begins at the offset of a turn. -/
theorem Visits.exists_cons {t : Text} {i : Nat} {q : Char} (h : Visits t i) (hq : q.toNat < 0x80)
    (hquote : (octets t)[i]? = some q) :
    ∃ a b, t = a ++ q :: b ∧ bytes a = i ∧
      tokens t = place 0 (pieces a) ++ place i (pieces (q :: b)) := by
  obtain ⟨ps, qs, hps, rfl⟩ := h.exists_split
  obtain ⟨ha, hb, -⟩ := pieces_of_append hps
  have ht := eq_append_of_pieces hps
  generalize hA : ps.flatMap Piece.text = a at *
  generalize qs.flatMap Piece.text = b at *
  have hhead : b.head? = some q := by
    rw [← head?_octets_eq_some_iff hq, List.head?_eq_getElem?, ← getElem?_octets (a := a), ← ht]
    exact hquote
  obtain ⟨b, rfl⟩ := List.head?_eq_some_iff.1 hhead
  refine ⟨a, b, ht, rfl, ?_⟩
  rw [tokens, hps, place_append, ha, hb, Nat.zero_add, hA]

theorem opensBlock_append_iff {q : Char} (hq : q.toNat < 0x80) {a b : Text} :
    OpensBlock q (a ++ q :: b) (bytes a) ↔ ∃ r, b = q :: q :: r := by
  have hone : octetsOf q = [q] := octetsOf_of_ascii hq
  rw [OpensBlock, getElem?_octets, getElem?_octets, octets_cons, hone]
  show (octets b)[0]? = some q ∧ (octets b)[1]? = some q ↔ _
  rw [← List.head?_eq_getElem?, head?_octets_eq_some_iff hq]
  constructor
  · rintro ⟨hfirst, hsecond⟩
    obtain ⟨b, rfl⟩ := List.head?_eq_some_iff.1 hfirst
    rw [octets_cons, hone] at hsecond
    change (octets b)[0]? = some q at hsecond
    rw [← List.head?_eq_getElem?, head?_octets_eq_some_iff hq] at hsecond
    obtain ⟨b, rfl⟩ := List.head?_eq_some_iff.1 hsecond
    exact ⟨b, rfl⟩
  · rintro ⟨r, rfl⟩
    refine ⟨rfl, ?_⟩
    rw [octets_cons, octets_cons, hone]
    rfl

end Source.Bytewise

open Source Source.Bytewise Text

/-- **A literal of one line ends at the first sign that no backslash keeps from it**: a quote, which
belongs to it, or a line feed, which does not. Where the scan meets a quote that does not open a block
there is a literal, and it stops there, at a place between two characters. -/
theorem literal_stops {t : Text} {i : Nat} {q : Char} (hi : Visits t i) (hq : q = '"' ∨ q = '\'')
    (hquote : (octets t)[i]? = some q) (hblock : ¬OpensBlock q t i) :
    ∃ k ∈ tokens t, k.kind = .literal ∧ k.start = i ∧ StopsAt q (octets t) i k.stop ∧
      IsBoundary t k.stop := by
  have hascii : q.toNat < 0x80 := by rcases hq with rfl | rfl <;> decide
  have hslash : q ≠ '\\' := by rcases hq with rfl | rfl <;> decide
  obtain ⟨a, b, rfl, rfl, htokens⟩ := hi.exists_cons hascii hquote
  rw [opensBlock_append_iff hascii] at hblock
  have hliteral : literal q b = quoted q b := literal_eq_quoted fun r hr => hblock ⟨r, hr⟩
  have hmem : ⟨.literal, bytes a, q :: (quoted q b).1⟩ ∈ tokens (a ++ q :: b) := by
    rw [htokens, pieces, firstPiece_quote hq, hliteral]
    exact List.mem_append_right _ List.mem_cons_self
  have hstop : quotedStop q (octets (a ++ q :: b)) (bytes a + 1) =
      bytes a + bytes (q :: (quoted q b).1) := by
    have hsize := utf8Size_of_ascii hascii
    have hnext := quotedStop_append hascii (a := a ++ [q]) (b := b)
    simpa [hsize, Nat.add_assoc] using hnext
  refine ⟨_, hmem, rfl, rfl, ?_, ((parts_tokens _).within hmem).2.1⟩
  show StopsAt q _ _ (bytes a + bytes (q :: (quoted q b).1))
  rw [← hstop]
  exact quotedStop_first hslash _ _

/-- A backslash goes over the first byte of a character of two, and the last one over the end. -/
theorem literal_stops_unclosed :
    let t : Text := " \"\\é\\\"\\\\\\"
    (Visits t 1 ∧ (octets t)[1]? = some '"' ∧ ¬OpensBlock '"' t 1) ∧
      ∃ k ∈ tokens t, k.kind = .literal ∧ k.start = 1 ∧ StopsAt '"' (octets t) 1 k.stop ∧
        IsBoundary t k.stop := by
  intro t
  have hblank : turn? t 0 = some (none, 1) := by decide
  have hvisits : Visits t 1 := Visits.start.next hblank
  have hquote : (octets t)[1]? = some '"' := by decide
  have hblock : ¬OpensBlock '"' t 1 := fun h => absurd h.1 (by decide)
  exact ⟨⟨hvisits, hquote, hblock⟩, literal_stops hvisits (.inl rfl) hquote hblock⟩

end QuickFix
