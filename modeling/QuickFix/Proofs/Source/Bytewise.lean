import Mathlib.Data.List.Basic
import QuickFix.Proofs.Source.Partition
import QuickFix.Text.Utf8

/-!
# Tokens by byte offsets

`Bytewise.scan?` reads the tokens of a text off its bytes. An offset goes over them: by one at a blank
or a sign, by two at a backslash in a literal, by the length of a character, or to what a search finds.
The text is cut at the offset where characters count. A cut inside a character or past the end has no
result, a byte past the end has none, and neither has a turn that does not go on.

`tokens_partition`: there is a result for every text, its tokens, and they part the text. A turn goes
over the first piece of what is left (`turn?_append`), so that the offset is at a place between
characters whenever the text is cut, also where it was inside a character before
(`quotedStop_skip_escaped`).
-/

namespace QuickFix

namespace Text

/-! ## Bytes as characters -/

/-- The bytes of a character, each as the character with that number. -/
def octetsOf (c : Char) : List Char := (encodeChar c).map fun b => Char.ofNat b.toNat

/-- The bytes of a text, each as the character with that number. -/
def octets (t : Text) : List Char := t.flatMap octetsOf

@[simp] theorem octets_append (a b : Text) : octets (a ++ b) = octets a ++ octets b :=
  List.flatMap_append

@[simp] theorem octets_cons (c : Char) (t : Text) : octets (c :: t) = octetsOf c ++ octets t := rfl

@[simp] theorem length_octetsOf (c : Char) : (octetsOf c).length = c.utf8Size := by
  rw [octetsOf, List.length_map, length_encodeChar]

@[simp] theorem length_octets (t : Text) : (octets t).length = bytes t := by
  induction t with
  | nil => rfl
  | cons c t ih => rw [octets_cons, List.length_append, length_octetsOf, ih, bytes_cons]

/-- A character of ASCII is its own byte, and any other has bytes outside of ASCII only. -/
theorem octetsOf_cases (c : Char) :
    octetsOf c = [c] ∨ 0x80 ≤ c.toNat ∧ ∀ o ∈ octetsOf c, 0x80 ≤ o.toNat := by
  have hoctet : ∀ b : UInt8, (Char.ofNat b.toNat).toNat = b.toNat := fun b => by
    have hlt := b.toNat_lt
    have hvalid : b.toNat.isValidChar := .inl (by omega)
    rw [Char.ofNat, dif_pos hvalid]
    rfl
  by_cases hc : c.toNat < 0x80
  · left
    have hbyte : (UInt8.ofNat c.toNat).toNat = c.toNat := by
      rw [UInt8.toNat_ofNat', Nat.mod_eq_of_lt (by omega)]
    rw [octetsOf, encodeChar, if_pos hc, List.map_singleton, hbyte, Char.ofNat_toNat]
  · refine .inr ⟨Nat.le_of_not_lt hc, fun o ho => ?_⟩
    obtain ⟨b, hb, rfl⟩ := List.mem_map.1 ho
    rw [hoctet]
    exact le_of_mem_encodeChar (Nat.le_of_not_lt hc) hb

theorem octetsOf_of_ascii {c : Char} (hc : c.toNat < 0x80) : octetsOf c = [c] := by
  rcases octetsOf_cases c with h | ⟨h, -⟩
  · exact h
  · omega

theorem utf8Size_of_ascii {c : Char} (hc : c.toNat < 0x80) : c.utf8Size = 1 := by
  rw [← length_octetsOf, octetsOf_of_ascii hc, List.length_singleton]

theorem ne_of_not_ascii {c d : Char} (hc : 0x80 ≤ c.toNat) (hd : d.toNat < 0x80) : c ≠ d := by
  rintro rfl
  omega

/-- A character of ASCII is not among the bytes of another one. -/
theorem not_mem_octetsOf {c d : Char} (hd : d.toNat < 0x80) (h : c ≠ d) : d ∉ octetsOf c := by
  intro hm
  rcases octetsOf_cases c with hc | ⟨-, hc⟩
  · rw [hc, List.mem_singleton] at hm
    exact h hm.symm
  · exact ne_of_not_ascii (hc d hm) hd rfl

end Text

namespace Source.Bytewise

open Text

/-! ## The scan -/

/-- The text from an offset on. -/
def from? (t : Text) (i : Nat) : Option Text := (cutBytes? i t).map (·.2)

/-- Offset behind the first `mark` at `i` or later, or the end of the text. -/
def behind? (mark t : Text) (i : Nat) : Option Nat :=
  (from? t i).map fun r =>
    match around? mark r with
    | some (a, _) => i + bytes a + bytes mark
    | none => bytes t

/-- Where a literal in single quotes `q` on one line stops, read on from offset `i` of the bytes. -/
def quotedStop (q : Char) (os : List Char) (i : Nat) : Nat :=
  if _h : i < os.length then
    if os[i] = '\\' then quotedStop q os (i + 2)
    else if os[i] = '\n' then i
    else if os[i] = q then i + 1
    else quotedStop q os (i + 1)
  else os.length
termination_by os.length - i

/-- Where the literal whose first quote `q` is at offset `i` stops. -/
def literalStop? (q : Char) (t : Text) (i : Nat) : Option Nat := do
  let r ← from? t i
  if startsWith r [q, q, q] then behind? [q, q, q] t (i + 3)
  else some (quotedStop q (octets t) (i + 1))

theorem le_bytes_of_from? {t r : Text} {i : Nat} {c : Char} (h : from? t i = some (c :: r)) :
    i + c.utf8Size ≤ bytes t := by
  obtain ⟨⟨a, b⟩, hcut, rfl⟩ := Option.map_eq_some_iff.1 h
  obtain ⟨rfl, rfl⟩ := cutBytes?_eq_some_iff.1 hcut
  simp

/-- Where a word stops, read on from offset `i`. -/
def wordStop? (t : Text) (i : Nat) : Option Nat :=
  match _h : from? t i with
  | none => none
  | some [] => some i
  | some (c :: _) => if isIdentContinue c then wordStop? t (i + c.utf8Size) else some i
termination_by bytes t - i
decreasing_by
  have := le_bytes_of_from? _h
  have := c.utf8Size_pos
  omega

/-- What is at offset `i`, a token or anything else, and where that stops. -/
def turn? (t : Text) (i : Nat) : Option (Option TokenKind × Nat) := do
  let o ← (octets t)[i]?
  if isAsciiBlank o then some (none, i + 1)
  else if o = '/' ∧ (octets t)[i + 1]? = some '/' then
    some (none, i + ((octets t).drop i).idxOf '\n')
  else if o = '/' ∧ (octets t)[i + 1]? = some '*' then
    (behind? ['*', '/'] t (i + 2)).map (none, ·)
  else match punctuation? o with
    | some kind => some (some kind, i + 1)
    | none =>
      if o = '"' ∨ o = '\'' then (literalStop? o t i).map (some .literal, ·)
      else do
        let c ← (← from? t i).head?
        if isIdentStart c then (wordStop? t (i + c.utf8Size)).map (some .word, ·)
        else some (some .other, i + c.utf8Size)

/-- The tokens from offset `i` on. -/
def scan? (t : Text) (i : Nat) : Option (List Token) :=
  if i < bytes t then
    match turn? t i with
    | none => none
    | some (kind?, j) =>
      if _h : i < j then
        match kind? with
        | none => scan? t j
        | some kind => do
          let text ← slice? i j t
          return ⟨kind, i, text⟩ :: (← scan? t j)
      else none
  else some []
termination_by bytes t - i

/-! ## Places between characters -/

variable {a b : Text} {c d : Char}

@[simp] theorem from?_append : from? (a ++ b) (bytes a) = some b := by
  rw [from?, cutBytes?_eq_some_iff.2 ⟨rfl, rfl⟩, Option.map_some]

theorem behind?_append (mark : Text) :
    behind? mark (a ++ b) (bytes a) = some (bytes a + bytes (through mark b).1) := by
  rw [behind?, from?_append, Option.map_some, through]
  cases around? mark b with
  | none => simp
  | some p => simp [Nat.add_assoc]

theorem behind?_append_append (mark x : Text) : behind? mark (a ++ (x ++ b)) (bytes a + bytes x) =
    some (bytes a + bytes (x ++ (through mark b).1)) := by
  rw [← List.append_assoc, ← bytes_append, behind?_append, bytes_append, bytes_append, Nat.add_assoc]

theorem getElem?_octets (j : Nat) : (octets (a ++ b))[bytes a + j]? = (octets b)[j]? := by
  rw [octets_append, List.getElem?_append_right (by simp)]
  simp

theorem drop_octets : (octets (a ++ b)).drop (bytes a) = octets b := by
  rw [octets_append, ← length_octets a, List.drop_left]

/-- The byte is the character, or both are outside of ASCII. -/
def IsFirst (o c : Char) : Prop := o = c ∨ 0x80 ≤ o.toNat ∧ 0x80 ≤ c.toNat

/-- What tells only characters of ASCII apart gives the same for the byte and the character. -/
theorem IsFirst.congr {o c : Char} {α : Type} {f : Char → α} {z : α} (h : IsFirst o c)
    (hf : ∀ x, 0x80 ≤ x.toNat → f x = z) : f o = f c := by
  rcases h with rfl | ⟨ho, hc⟩
  · rfl
  · rw [hf o ho, hf c hc]

theorem IsFirst.eq_iff {o c d : Char} (h : IsFirst o c) (hd : d.toNat < 0x80) : o = d ↔ c = d :=
  Iff.of_eq (h.congr (f := (· = d)) fun _ hx => eq_false (ne_of_not_ascii hx hd))

/-- The bytes of a character are a first one and others outside of ASCII. -/
theorem exists_octet (c : Char) : ∃ o os, octetsOf c = o :: os ∧ IsFirst o c ∧
    ∀ x ∈ os, 0x80 ≤ x.toNat := by
  have hpos := c.utf8Size_pos
  rw [← length_octetsOf] at hpos
  obtain ⟨o, os, ho⟩ := List.exists_cons_of_length_pos hpos
  refine ⟨o, os, ho, ?_⟩
  rcases octetsOf_cases c with hc | ⟨hc, hall⟩
  · rw [hc] at ho
    obtain ⟨rfl, rfl⟩ := List.cons.inj ho
    exact ⟨.inl rfl, fun x hx => by cases hx⟩
  · rw [ho] at hall
    exact ⟨.inr ⟨hall o List.mem_cons_self, hc⟩, fun x hx => hall x (List.mem_cons_of_mem o hx)⟩

theorem head?_octets_eq_some_iff (hd : d.toNat < 0x80) :
    (octets b).head? = some d ↔ b.head? = some d := by
  cases b with
  | nil => rfl
  | cons c b =>
    obtain ⟨o, os, ho, hoc, -⟩ := exists_octet c
    rw [octets_cons, ho]
    simp only [List.cons_append, List.head?_cons, Option.some.injEq]
    exact hoc.eq_iff hd

/-- The next byte of ASCII is where the next such character is. -/
theorem idxOf_octets (hd : d.toNat < 0x80) :
    (octets b).idxOf d = bytes (b.takeWhile (· ≠ d)) := by
  induction b with
  | nil => rfl
  | cons c b ih =>
    by_cases hc : c = d
    · subst hc
      rcases octetsOf_cases c with ho | ⟨hle, -⟩
      · simp [ho]
      · omega
    · rw [octets_cons, List.idxOf_append_of_notMem (not_mem_octetsOf hd hc), ih, length_octetsOf]
      simp [hc]

theorem isAsciiBlank_of_not_ascii (hc : 0x80 ≤ c.toNat) : isAsciiBlank c = false := by
  simp only [isAsciiBlank, Bool.or_eq_false_iff, beq_eq_false_iff_ne]
  refine ⟨⟨⟨⟨?_, ?_⟩, ?_⟩, ?_⟩, ?_⟩ <;> exact ne_of_not_ascii hc (by decide)

theorem punctuation?_of_not_ascii (hc : 0x80 ≤ c.toNat) : punctuation? c = none := by
  unfold punctuation?
  split
  case h_8 => rfl
  all_goals exact absurd hc (by decide)

/-! ## Words and literals -/

theorem wordStop?_of_nil {t : Text} {i : Nat} (h : from? t i = some []) :
    wordStop? t i = some i := by
  rw [wordStop?]
  split
  · rename_i hn
    cases h.symm.trans hn
  · rfl
  · rename_i hc
    cases h.symm.trans hc

theorem wordStop?_of_cons {t : Text} {i : Nat} (h : from? t i = some (c :: b)) :
    wordStop? t i = if isIdentContinue c then wordStop? t (i + c.utf8Size) else some i := by
  rw [wordStop?]
  split
  · rename_i hn
    cases h.symm.trans hn
  · rename_i hn
    cases h.symm.trans hn
  · rename_i hc
    cases h.symm.trans hc
    rfl

theorem wordStop?_append :
    wordStop? (a ++ b) (bytes a) = some (bytes a + bytes (b.takeWhile isIdentContinue)) := by
  induction b generalizing a with
  | nil => exact wordStop?_of_nil from?_append
  | cons c b ih =>
    have hnext : a ++ c :: b = (a ++ [c]) ++ b := by simp
    have hbytes : bytes a + c.utf8Size = bytes (a ++ [c]) := by simp
    rw [wordStop?_of_cons from?_append]
    split
    · rename_i hc
      rw [hnext, hbytes, ih, List.takeWhile_cons_of_pos hc]
      simp [Nat.add_assoc]
    · rename_i hc
      rw [List.takeWhile_cons_of_neg hc]
      simp

theorem wordStop?_append_cons : wordStop? (a ++ c :: b) (bytes a + c.utf8Size) =
    some (bytes a + bytes (c :: b.takeWhile isIdentContinue)) := by
  have hnext : a ++ c :: b = (a ++ [c]) ++ b := by simp
  have hbytes : bytes a + c.utf8Size = bytes (a ++ [c]) := by simp
  rw [hnext, hbytes, wordStop?_append]
  simp [Nat.add_assoc]

/-- Bytes that are none of the three signs are gone over one by one. -/
theorem quotedStop_skip {q : Char} {ms : List Char}
    (hm : ∀ o ∈ ms, o ≠ '\\' ∧ o ≠ '\n' ∧ o ≠ q) (ps os : List Char) :
    quotedStop q (ps ++ (ms ++ os)) ps.length =
      quotedStop q (ps ++ (ms ++ os)) (ps.length + ms.length) := by
  induction ms generalizing ps with
  | nil => rfl
  | cons m ms ih =>
    obtain ⟨hslash, hfeed, hq⟩ := hm m List.mem_cons_self
    have hnext : ps ++ (m :: ms ++ os) = (ps ++ [m]) ++ (ms ++ os) := by simp
    have hstep : quotedStop q (ps ++ (m :: ms ++ os)) ps.length =
        quotedStop q (ps ++ (m :: ms ++ os)) (ps.length + 1) := by
      rw [quotedStop]
      simp [hslash, hfeed, hq]
    have hlen : ps.length + 1 = (ps ++ [m]).length := by simp
    rw [hstep, hlen, hnext, ih (fun o ho => hm o (List.mem_cons_of_mem m ho)) (ps ++ [m])]
    congr 1
    simp
    omega

theorem quotedStop_skip_char {q : Char} (hq : q.toNat < 0x80) (hslash : c ≠ '\\')
    (hfeed : c ≠ '\n') (hcq : c ≠ q) : quotedStop q (octets (a ++ c :: b)) (bytes a) =
      quotedStop q (octets (a ++ c :: b)) (bytes (a ++ [c])) := by
  have hne : ∀ o ∈ octetsOf c, o ≠ '\\' ∧ o ≠ '\n' ∧ o ≠ q := fun o ho =>
    ⟨fun h => not_mem_octetsOf (by decide) hslash (h ▸ ho),
      fun h => not_mem_octetsOf (by decide) hfeed (h ▸ ho),
      fun h => not_mem_octetsOf hq hcq (h ▸ ho)⟩
  simpa using quotedStop_skip hne (octets a) (octets b)

/-- The two bytes that a backslash goes over end inside the next character where that has more than
one; the others are gone over one by one. -/
theorem quotedStop_skip_escaped {q : Char} (hq : q.toNat < 0x80) :
    quotedStop q (octets (a ++ '\\' :: c :: b)) (bytes a) =
      quotedStop q (octets (a ++ '\\' :: c :: b)) (bytes (a ++ ['\\', c])) := by
  obtain ⟨o, os, ho, -, hall⟩ := exists_octet c
  have hlen : os.length + 1 = c.utf8Size := by rw [← length_octetsOf, ho, List.length_cons]
  have hslash : octetsOf '\\' = ['\\'] := by decide
  have hoctets : octets (a ++ '\\' :: c :: b) =
      (octets a ++ ['\\', o]) ++ (os ++ octets b) := by simp [hslash, ho]
  have hstep : quotedStop q (octets (a ++ '\\' :: c :: b)) (bytes a) =
      quotedStop q (octets (a ++ '\\' :: c :: b)) (bytes a + 2) := by
    rw [quotedStop, hoctets]
    simp
  have hne : ∀ x ∈ os, x ≠ '\\' ∧ x ≠ '\n' ∧ x ≠ q := fun x hx =>
    ⟨ne_of_not_ascii (hall x hx) (by decide), ne_of_not_ascii (hall x hx) (by decide),
      ne_of_not_ascii (hall x hx) hq⟩
  have hskip := quotedStop_skip hne (octets a ++ ['\\', o]) (octets b)
  have hstart : (octets a ++ ['\\', o]).length = bytes a + 2 := by simp
  have hstop : bytes a + 2 + os.length = bytes (a ++ ['\\', c]) := by
    have hone : '\\'.utf8Size = 1 := by decide
    simp
    omega
  rw [← hoctets, hstart, hstop] at hskip
  exact hstep.trans hskip

/-- A character that no case for a backslash takes is none. -/
theorem ne_backslash {t : Text} (hnil : c = '\\' → t = [] → False)
    (hcons : ∀ d u, c = '\\' → t = d :: u → False) : c ≠ '\\' := by
  intro h
  cases t with
  | nil => exact hnil h rfl
  | cons d t => exact hcons d t h rfl

theorem quotedStop_append {q : Char} (hq : q.toNat < 0x80) :
    quotedStop q (octets (a ++ b)) (bytes a) = bytes a + bytes (quoted q b).1 := by
  fun_induction quoted q b generalizing a with
  | case1 =>
    rw [quotedStop]
    simp
  | case2 =>
    have hslash : octetsOf '\\' = ['\\'] := by decide
    rw [quotedStop, quotedStop]
    simp [hslash]
    rfl
  | case3 c t ih =>
    have hnext : a ++ '\\' :: c :: t = (a ++ ['\\', c]) ++ t := by simp
    rw [quotedStop_skip_escaped hq, hnext, ih]
    simp
    omega
  | case4 =>
    have hfeed : octetsOf '\n' = ['\n'] := by decide
    rw [quotedStop]
    simp [hfeed]
  | case5 t hnil hcons hfeed =>
    have hslash := ne_backslash hnil hcons
    rw [quotedStop]
    simp [octetsOf_of_ascii hq, utf8Size_of_ascii hq, hslash, hfeed]
  | case6 c t hnil hcons hfeed hcq ih =>
    have hslash := ne_backslash hnil hcons
    have hnext : a ++ c :: t = (a ++ [c]) ++ t := by simp
    rw [quotedStop_skip_char hq hslash hfeed hcq, hnext, ih]
    simp
    omega

theorem literalStop?_append {q : Char} (hq : q.toNat < 0x80) :
    literalStop? q (a ++ q :: b) (bytes a) = some (bytes a + bytes (q :: (literal q b).1)) := by
  have hone := utf8Size_of_ascii hq
  have hquoted : quotedStop q (octets (a ++ q :: b)) (bytes a + 1) =
      bytes a + bytes (q :: (quoted q b).1) := by
    have hnext : a ++ q :: b = (a ++ [q]) ++ b := by simp
    have hbytes : bytes a + 1 = bytes (a ++ [q]) := by simp [hone]
    rw [hnext, hbytes, quotedStop_append hq]
    simp [Nat.add_assoc]
  have hblock : ∀ r, behind? [q, q, q] (a ++ q :: q :: q :: r) (bytes a + 3) =
      some (bytes a + bytes (q :: q :: q :: (through [q, q, q] r).1)) := fun r => by
    have hthree : bytes [q, q, q] = 3 := by simp [hone]
    rw [← hthree]
    exact behind?_append_append [q, q, q] [q, q, q]
  simp only [literalStop?, from?_append, Option.bind_eq_bind, Option.bind_some, hquoted]
  match b with
  | [] => simp [startsWith, after?, literal]
  | [d] => by_cases hd : q = d <;> simp [startsWith, after?, literal, hd]
  | d :: e :: r =>
    by_cases hd : q = d
    · by_cases he : q = e
      · subst hd he
        simp [startsWith, after?, literal, hblock]
      · subst hd
        simp [startsWith, after?, literal, he, Ne.symm he]
    · simp [startsWith, after?, literal, hd, Ne.symm hd]

/-! ## Turns -/

/-- The kind of a piece, if it is a token. -/
def tokenKind? : PieceKind → Option TokenKind
  | .token kind => some kind
  | _ => none

/-- The bytes at a place begin with a slash and a sign of ASCII where the characters do. -/
theorem slash_octets_iff {o : Char} (ho : IsFirst o c) (hd : d.toNat < 0x80) :
    (o = '/' ∧ (octets (a ++ c :: b))[bytes a + 1]? = some d) ↔ c = '/' ∧ b.head? = some d := by
  rw [ho.eq_iff (by decide), ← head?_octets_eq_some_iff hd, List.head?_eq_getElem?]
  refine and_congr_right ?_
  rintro rfl
  have hone : octetsOf '/' = ['/'] := octetsOf_of_ascii (by decide)
  rw [getElem?_octets, octets_cons, hone]
  rfl

/-- A turn goes over the first piece. -/
theorem turn?_append : turn? (a ++ c :: b) (bytes a) =
    some (tokenKind? (firstPiece c b).1.kind, bytes a + bytes (firstPiece c b).1.text) := by
  obtain ⟨o, os, hos, ho, -⟩ := exists_octet c
  have hget : (octets (a ++ c :: b))[bytes a]? = some o := by
    have := getElem?_octets (a := a) (b := c :: b) 0
    rwa [octets_cons, hos] at this
  -- the tests on the first byte are tests on the character
  have hblank : isAsciiBlank o = isAsciiBlank c := ho.congr fun _ => isAsciiBlank_of_not_ascii
  have hpunctuation : punctuation? o = punctuation? c := ho.congr fun _ => punctuation?_of_not_ascii
  have hquote : (o = '"' ∨ o = '\'') ↔ (c = '"' ∨ c = '\'') := by
    rw [ho.eq_iff (by decide), ho.eq_iff (by decide)]
  simp only [turn?, firstPiece, hget, Option.bind_eq_bind, Option.bind_some, hblank, hpunctuation,
    hquote, slash_octets_iff ho (d := '/') (by decide), slash_octets_iff ho (d := '*') (by decide)]
  by_cases hb : isAsciiBlank c = true
  · have hone := utf8Size_of_ascii (Nat.lt_of_not_le fun hc => by
      rw [isAsciiBlank_of_not_ascii hc] at hb
      cases hb)
    simp [if_pos hb, tokenKind?, hone]
  rw [if_neg hb, if_neg hb]
  by_cases hline : c = '/' ∧ b.head? = some '/'
  · rw [if_pos hline, if_pos hline, drop_octets, idxOf_octets (by decide), hline.1]
    simp [tokenKind?]
  rw [if_neg hline, if_neg hline]
  by_cases hblock : c = '/' ∧ b.head? = some '*'
  · obtain ⟨rfl, hhead⟩ := hblock
    obtain ⟨r, rfl⟩ := List.head?_eq_some_iff.1 hhead
    rw [if_pos ⟨rfl, hhead⟩, if_pos ⟨rfl, hhead⟩]
    exact congrArg (Option.map (none, ·)) (behind?_append_append ['*', '/'] ['/', '*'])
  rw [if_neg hblock, if_neg hblock]
  cases hp : punctuation? c with
  | some kind =>
    have hone := utf8Size_of_ascii (Nat.lt_of_not_le fun hc => by
      rw [punctuation?_of_not_ascii hc] at hp
      cases hp)
    simp [tokenKind?, hone]
  | none =>
    simp only
    by_cases hq : c = '"' ∨ c = '\''
    · have hascii : c.toNat < 0x80 := by rcases hq with rfl | rfl <;> decide
      rw [if_pos hq, if_pos hq, (ho.eq_iff hascii).2 rfl, literalStop?_append hascii]
      rfl
    rw [if_neg hq, if_neg hq, from?_append]
    simp only [Option.bind_some, List.head?_cons]
    by_cases hi : isIdentStart c = true
    · rw [if_pos hi, if_pos hi, wordStop?_append_cons]
      rfl
    · rw [if_neg hi, if_neg hi]
      simp [tokenKind?]

/-- **The scan gives the tokens** from a place between characters on. -/
theorem scan?_append : scan? (a ++ b) (bytes a) = some (place (bytes a) (pieces b)) := by
  fun_induction pieces b generalizing a with
  | case1 =>
    rw [scan?]
    simp [place]
  | case2 c b ih =>
    have htext := firstPiece_append c b
    have hpos : 0 < bytes (firstPiece c b).1.text := bytes_pos (firstPiece_text_ne_nil c b)
    have hlt : bytes a < bytes (a ++ c :: b) := by
      rw [← htext, bytes_append, bytes_append]
      omega
    have hnext : a ++ c :: b = (a ++ (firstPiece c b).1.text) ++ (firstPiece c b).2 := by
      rw [List.append_assoc, htext]
    have hread : slice? (bytes a) (bytes a + bytes (firstPiece c b).1.text) (a ++ c :: b) =
        some (firstPiece c b).1.text :=
      slice?_eq_some_iff.2 ⟨a, (firstPiece c b).2, by rw [htext], rfl, rfl⟩
    have hrest : scan? (a ++ c :: b) (bytes a + bytes (firstPiece c b).1.text) =
        some (place (bytes a + bytes (firstPiece c b).1.text) (pieces (firstPiece c b).2)) := by
      rw [hnext, ← bytes_append]
      exact ih
    rw [scan?, if_pos hlt, turn?_append]
    simp only
    rw [dif_pos (by omega), place]
    cases (firstPiece c b).1.kind with
    | token kind => simp [tokenKind?, hread, hrest]
    | blank | comment => simp [tokenKind?, hrest]

end Source.Bytewise

/-- **The tokens part the text**, and the scan by byte offsets ends with them: no cut falls inside a
character or past the end. -/
theorem Source.tokens_partition (t : Text) :
    Bytewise.scan? t 0 = some (tokens t) ∧ Parts t (tokens t) :=
  ⟨Bytewise.scan?_append (a := []), parts_tokens t⟩

end QuickFix
