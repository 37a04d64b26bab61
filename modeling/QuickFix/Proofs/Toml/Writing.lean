import Mathlib.Algebra.Group.Nat.Defs
import Mathlib.Data.List.Nodup
import Mathlib.Data.List.TakeWhile
import QuickFix.Proofs.Name
import QuickFix.Proofs.Text.Digits
import QuickFix.Text.Quoted
import QuickFix.Toml.Reader

/-!
# TOML values written and read back

`Toml.render` writes a value in one line, `Toml.write` a document with one line for each entry of its
root table. What is written is read back, if every table has keys that need no quotes, each once, and
values nest less deep than the reader goes (`Writable`).

* `basic?_escape`, `word?_ofInt`: strings and integers;
* `value?_render`: any value, before a character that ends one;
* `read?_write`: whole documents.
-/

namespace QuickFix.Toml

/-! ## Writing -/

/-- A key that needs no quotes. -/
def IsBare (k : Text) : Prop := k ≠ [] ∧ ∀ c ∈ k, isKeyChar c = true

instance (k : Text) : Decidable (IsBare k) :=
  decidable_of_iff (k ≠ [] ∧ k.all isKeyChar = true) (by rw [IsBare, List.all_eq_true])

/-- A character between double quotes. -/
def escape (c : Char) : Text :=
  if c = '"' then ['\\', '"']
  else if c = '\\' then ['\\', '\\']
  else if isPlain c then [c]
  else
    let digits := Text.hex c.toNat
    '\\' :: 'u' :: (List.replicate (4 - digits.length) '0' ++ digits)

mutual

/-- A value in one line. Numbers with a fraction, dates and times are not written. -/
def render : Toml → Text
  | .text t => '"' :: (t.flatMap escape ++ ['"'])
  | .integer n => Text.ofInt n
  | .bool b => if b then "true" else "false"
  | .list items => '[' :: (renderItems items ++ [']'])
  | .table entries => '\x7b' :: (renderEntries entries ++ ['\x7d'])
  | .float _ => []
  | .moment => []

/-- Values with commas between them. -/
def renderItems : List Toml → Text
  | [] => []
  | [v] => render v
  | v :: w :: vs => render v ++ ',' :: ' ' :: renderItems (w :: vs)

/-- Entries with commas between them. -/
def renderEntries : List (Text × Toml) → Text
  | [] => []
  | [(k, v)] => k ++ ' ' :: '=' :: ' ' :: render v
  | (k, v) :: e :: es =>
    k ++ ' ' :: '=' :: ' ' :: (render v ++ ',' :: ' ' :: renderEntries (e :: es))

end

/-- A document with these entries in its root table. -/
def write (es : List (Text × Toml)) : Text :=
  es.flatMap fun e => e.1 ++ ' ' :: '=' :: ' ' :: (render e.2 ++ ['\n'])

/-- A value that can be written, in which others nest less than `depth` deep. -/
inductive Writable : Nat → Toml → Prop
  | text {depth : Nat} (t : Text) : Writable depth (.text t)
  | integer {depth : Nat} {n : Int} : fitsSigned64 n = true → Writable depth (.integer n)
  | bool {depth : Nat} (b : Bool) : Writable depth (.bool b)
  | list {depth : Nat} {items : List Toml} :
    (∀ v ∈ items, Writable depth v) → Writable (depth + 1) (.list items)
  | table {depth : Nat} {es : List (Text × Toml)} :
    (es.map Prod.fst).Nodup → (∀ e ∈ es, IsBare e.1) → (∀ e ∈ es, Writable depth e.2) →
    Writable (depth + 1) (.table es)

theorem Writable.natCast {depth n : Nat} (hn : n ≤ 2 ^ 63 - 1) : Writable depth (.integer n) := by
  refine .integer ?_
  rw [fitsSigned64, Bool.and_eq_true, decide_eq_true_eq, decide_eq_true_eq]
  omega

/-! ## Strings -/

theorem escape_cases (c : Char) :
    (c ≠ '"' ∧ c ≠ '\\' ∧ isPlain c = true ∧ escape c = [c]) ∨
    ∃ e, escape c = '\\' :: e ∧ ∀ t, escape? (e ++ t) = some (c, e.length) := by
  unfold escape
  by_cases hquote : c = '"'
  · exact .inr ⟨['"'], if_pos hquote, fun t => by subst hquote; rfl⟩
  by_cases hslash : c = '\\'
  · exact .inr ⟨['\\'], by rw [if_neg hquote, if_pos hslash], fun t => by subst hslash; rfl⟩
  by_cases hplain : isPlain c = true
  · exact .inl ⟨hquote, hslash, hplain, by rw [if_neg hquote, if_neg hslash, if_pos hplain]⟩
  · -- A control: its number has at most two digits.
    have hlt : c.toNat < 0x80 := by
      simp only [isPlain, Bool.or_eq_true, decide_eq_true_eq, Bool.and_eq_true, not_or, not_and] at hplain
      omega
    have hcode : ∀ n < 0x80,
        let digits := Text.hex n
        (List.replicate (4 - digits.length) '0' ++ digits).length = 4 ∧
        ofHex? (List.replicate (4 - digits.length) '0' ++ digits) = some (Char.ofNat n) := by
      decide +kernel
    obtain ⟨hlength, hvalue⟩ := hcode c.toNat hlt
    rw [Char.ofNat_toNat] at hvalue
    refine .inr ⟨_, by rw [if_neg hquote, if_neg hslash, if_neg hplain], fun t => ?_⟩
    have hle : 4 ≤ ((List.replicate (4 - (Text.hex c.toNat).length) '0' ++
        Text.hex c.toNat) ++ t).length := by
      rw [List.length_append]
      omega
    simp only [List.cons_append, escape?]
    rw [if_pos hle, List.take_left' hlength, hvalue, List.length_cons, hlength]
    rfl

theorem basic?_escape (s r : Text) : basic? (s.flatMap escape ++ '"' :: r) = some (s, r) := by
  induction s with
  | nil =>
    rw [List.flatMap_nil, List.nil_append, basic?]
    exact if_pos rfl
  | cons c s ih =>
    rw [List.flatMap_cons, List.append_assoc]
    rcases escape_cases c with ⟨hquote, hslash, hplain, hc⟩ | ⟨e, hc, he⟩
    · rw [hc, List.singleton_append, basic?, if_neg hquote, if_neg hslash, if_pos hplain, ih]
      rfl
    · rw [hc, List.cons_append, basic?, if_neg (by decide), if_pos rfl, he, Option.bind_eq_bind,
        Option.bind_some]
      simp only [List.drop_left, ih]
      rfl

theorem head?_flatMap_escape (s r : Text) (hr : r.head? ≠ some '"') :
    ∀ t, s.flatMap escape ++ '"' :: r ≠ '"' :: '"' :: t := by
  intro t heq
  cases s with
  | nil =>
    rw [List.flatMap_nil, List.nil_append] at heq
    exact hr (by rw [(List.cons.inj heq).2]; rfl)
  | cons c s =>
    rw [List.flatMap_cons, List.append_assoc] at heq
    rcases escape_cases c with ⟨hquote, -, -, hc⟩ | ⟨e, hc, -⟩
    · rw [hc, List.singleton_append] at heq
      exact hquote (List.cons.inj heq).1
    · rw [hc, List.cons_append] at heq
      exact absurd (List.cons.inj heq).1 (by decide)

theorem string?_render (s r : Text) (hr : r.head? ≠ some '"') :
    string? ('"' :: (s.flatMap escape ++ '"' :: r)) = some (s, r) := by
  have hone := head?_flatMap_escape s r hr
  unfold string?
  split
  · rename_i t heq
    exact absurd (List.cons.inj heq).2 (hone t)
  · rename_i heq
    exact absurd (List.cons.inj heq).1 (by decide)
  · exact basic?_escape s r

/-! ## Integers -/

theorem ungroup?_of_isDigit {ds : Text} (hne : ds ≠ []) (hds : ∀ c ∈ ds, c.isDigit = true) :
    ungroup? Char.isDigit ds = some ds := by
  induction ds with
  | nil => exact absurd rfl hne
  | cons d ds ih =>
    obtain ⟨hd, hds⟩ := List.forall_mem_cons.1 hds
    cases ds with
    | nil => rw [ungroup?, if_pos hd]
    | cons e ds =>
      have he : e ≠ '_' := fun he => by
        have := hds e List.mem_cons_self
        rw [he] at this
        exact absurd this (by decide)
      rw [ungroup?.eq_4 _ _ _ (by simp) (by simpa using he), if_pos hd, ih (by simp) hds]
      rfl

theorem hexDigit?_of_isDigit {c : Char} (hc : c.isDigit = true) :
    hexDigit? c = some (c.toNat - '0'.toNat) := if_pos hc

theorem ofDigits_of_isDigit {ds : Text} (hds : ∀ c ∈ ds, c.isDigit = true) :
    ofDigits 10 ds = Nat.ofDigitChars 10 ds 0 := by
  have hfold : ∀ (ds : Text) (n : Nat), (∀ c ∈ ds, c.isDigit = true) →
      ds.foldl (fun n c => 10 * n + (hexDigit? c).getD 0) n = Nat.ofDigitChars 10 ds n := by
    intro ds
    induction ds with
    | nil => exact fun _ _ => rfl
    | cons d ds ih =>
      intro n hds
      obtain ⟨hd, hds⟩ := List.forall_mem_cons.1 hds
      rw [List.foldl_cons, ih _ hds, hexDigit?_of_isDigit hd]
      rfl
  exact hfold ds 0 hds

theorem wholeDigits?_ofNat (n : Nat) : wholeDigits? (Text.ofNat n) = some (Text.ofNat n) := by
  rw [wholeDigits?, ungroup?_of_isDigit (Text.ofNat_ne_nil n) fun _ => Text.isDigit_of_mem_ofNat]
  split
  · rename_i c ds heq
    obtain rfl : n = 0 := Nat.eq_zero_of_not_pos fun hn =>
      Text.head?_ofNat hn (by rw [Option.some.inj heq]; rfl)
    cases heq
  · rfl

theorem ofDigits_ofNat (n : Nat) : ofDigits 10 (Text.ofNat n) = n := by
  rw [ofDigits_of_isDigit fun _ => Text.isDigit_of_mem_ofNat, Text.ofDigitChars_ofNat]

theorem mem_ofInt {n : Int} {c : Char} (hc : c ∈ Text.ofInt n) : c.isDigit = true ∨ c = '-' := by
  rcases List.mem_append.1 hc with hc | hc
  · split at hc
    · exact .inr (List.mem_singleton.1 hc)
    · exact absurd hc List.not_mem_nil
  · exact .inl (Text.isDigit_of_mem_ofNat hc)

theorem not_mem_ofInt {n : Int} {c : Char} (hdigit : c.isDigit = false) (hdash : c ≠ '-') :
    c ∉ Text.ofInt n := fun hc => by
  rcases mem_ofInt hc with h | h
  · rw [hdigit] at h
    cases h
  · exact hdash h

theorem splitSign_ofInt (n : Int) :
    splitSign (Text.ofInt n) = (decide (n < 0), Text.ofNat n.natAbs) := by
  rw [Text.ofInt]
  by_cases hneg : n < 0
  · rw [if_pos hneg, decide_eq_true hneg]
    rfl
  · rw [if_neg hneg, decide_eq_false hneg, List.nil_append, splitSign.eq_def]
    have hhead : ∀ c t, Text.ofNat n.natAbs = c :: t → c.isDigit = true := fun c t h =>
      Text.isDigit_of_mem_ofNat (h ▸ List.mem_cons_self)
    split
    · rename_i heq
      exact absurd (hhead _ _ heq) (by decide)
    · rename_i heq
      exact absurd (hhead _ _ heq) (by decide)
    · rfl

theorem integer?_ofInt {n : Int} (hn : fitsSigned64 n = true) :
    integer? (Text.ofInt n) = some (.integer n) := by
  have hmark : ∀ c ∈ ['x', 'o', 'b'], c ∉ Text.ofInt n := fun c hc => by
    have hother : ∀ c ∈ ['x', 'o', 'b'], c.isDigit = false ∧ c ≠ '-' :=
      Text.forall_mem_of_all (by decide)
    exact not_mem_ofInt (hother c hc).1 (hother c hc).2
  unfold integer?
  split
  · rename_i heq
    exact absurd (heq ▸ by simp) (hmark 'x' (by simp))
  · rename_i heq
    exact absurd (heq ▸ by simp) (hmark 'o' (by simp))
  · rename_i heq
    exact absurd (heq ▸ by simp) (hmark 'b' (by simp))
  · simp only [splitSign_ofInt, wholeDigits?_ofNat, Option.bind_eq_bind, Option.bind_some,
      ofDigits_ofNat]
    have hvalue : (if decide (n < 0) = true then -(n.natAbs : Int) else n.natAbs) = n := by
      split <;> rename_i h <;> simp only [decide_eq_true_eq] at h <;> omega
    rw [hvalue, within, if_pos hn]

theorem float?_ofInt (n : Int) : float? (Text.ofInt n) = none := by
  have hdigits : ∀ c ∈ Text.ofNat n.natAbs, isGroupChar c = true := fun c hc => by
    rw [isGroupChar, Text.isDigit_of_mem_ofNat hc]
    rfl
  have hword : ∀ c : Char, c.isDigit = false → ∀ w : Text, c ∈ w → Text.ofNat n.natAbs ≠ w := by
    intro c hc w hw heq
    have hdigit := Text.isDigit_of_mem_ofNat (heq ▸ hw)
    rw [hc] at hdigit
    cases hdigit
  rw [float?]
  simp only [splitSign_ofInt]
  rw [if_neg (hword 'i' rfl _ (by decide)), if_neg (hword 'a' rfl _ (by decide)),
    List.takeWhile_eq_self_iff.2 hdigits, List.dropWhile_eq_nil_iff.2 hdigits, wholeDigits?_ofNat]
  rfl

theorem isTime_of_not_mem {t : Text} (h : ':' ∉ t) : isTime t = false := by
  rw [isTime, List.splitOn_eq_singleton h]

theorem isDate_of_not_mem_tail {t : Text} (h : '-' ∉ t.tail) : isDate t = false := by
  unfold isDate
  cases t with
  | nil => rfl
  | cons c t =>
    have htail : t.splitOn '-' = [t] := List.splitOn_eq_singleton h
    rw [List.splitOn_cons_eq_if_modifyHead, htail]
    by_cases hc : (c == '-') = true
    · rw [if_pos hc]
    · rw [if_neg hc]
      rfl

theorem isMoment_ofInt (n : Int) : isMoment (Text.ofInt n) = false := by
  have hdash : '-' ∉ (Text.ofInt n).tail := fun hmem => by
    have htail : ∀ c ∈ (Text.ofInt n).tail, c ∈ Text.ofNat n.natAbs := by
      rw [Text.ofInt]
      split
      · exact fun c hc => hc
      · exact fun c hc => List.mem_of_mem_tail hc
    exact absurd (Text.isDigit_of_mem_ofNat (htail _ hmem)) (by decide)
  have htake : '-' ∉ ((Text.ofInt n).take 10).tail := fun hmem => by
    rw [← List.drop_one, List.drop_take, List.drop_one] at hmem
    exact hdash (List.mem_of_mem_take hmem)
  rw [isMoment, isTime_of_not_mem (not_mem_ofInt (by decide) (by decide)),
    isDate_of_not_mem_tail hdash, isDate_of_not_mem_tail htake]
  rfl

theorem word?_ofInt {n : Int} (hn : fitsSigned64 n = true) :
    word? (Text.ofInt n) = some (.integer n) := by
  have hword : ∀ w : Text, 'e' ∈ w → Text.ofInt n ≠ w := fun w hw heq =>
    not_mem_ofInt (n := n) (by decide) (by decide) (heq ▸ hw)
  rw [word?, if_neg (hword _ (by decide)), if_neg (hword _ (by decide)),
    if_neg (by rw [isMoment_ofInt]; decide), float?_ofInt, Option.none_or, integer?_ofInt hn]

/-! ## Between the parts -/

/-- A character that no space, comment or line end starts with. -/
def IsSolid (c : Char) : Prop := c ∉ [' ', '\t', '#', '\n', '\r']

instance (c : Char) : Decidable (IsSolid c) := inferInstanceAs (Decidable (c ∉ _))

/-- A text that can follow a value: it starts with a mark that ends one. -/
def Closes (r : Text) : Prop := ∃ c ∈ [',', ']', '\x7d', '\n'], ∃ s, r = c :: s

theorem skipSpace_of_solid {c : Char} (hc : IsSolid c) (t : Text) : skipSpace (c :: t) = c :: t :=
  List.dropWhile_cons_of_neg (by simp [IsSolid] at hc; simp [hc.1, hc.2.1])

theorem skipSpace_space (t : Text) : skipSpace (' ' :: t) = skipSpace t :=
  List.dropWhile_cons_of_pos (by decide)

theorem skipSpace_length_le (t : Text) : (skipSpace t).length ≤ t.length :=
  (List.dropWhile_sublist _).length_le

theorem skipComment_of_solid {c : Char} (hc : IsSolid c) (t : Text) :
    skipComment (c :: t) = c :: t := by
  unfold skipComment
  split
  · rename_i heq
    exact absurd (by rw [(List.cons.inj heq).1]; simp) hc
  · rfl

theorem afterLineEnd?_of_solid {c : Char} (hc : IsSolid c) (t : Text) :
    afterLineEnd? (c :: t) = none := by
  unfold afterLineEnd?
  split
  · rename_i heq
    exact absurd (by rw [(List.cons.inj heq).1]; simp) hc
  · rename_i heq
    exact absurd (by rw [(List.cons.inj heq).1]; simp) hc
  · rfl

theorem skipLines_of_skipSpace {t : Text} {c : Char} {r : Text} (hc : IsSolid c)
    (h : skipSpace t = c :: r) : skipLines t = c :: r := by
  rw [skipLines, h, skipComment_of_solid hc, afterLineEnd?_of_solid hc]

theorem skipLines_of_solid {c : Char} (hc : IsSolid c) (t : Text) : skipLines (c :: t) = c :: t :=
  skipLines_of_skipSpace hc (skipSpace_of_solid hc t)

theorem skipLines_space {c : Char} (hc : IsSolid c) (t : Text) :
    skipLines (' ' :: c :: t) = c :: t :=
  skipLines_of_skipSpace hc (by rw [skipSpace_space, skipSpace_of_solid hc])

/-! ## Keys -/

theorem isSolid_of_isKeyChar {c : Char} (hc : isKeyChar c = true) : IsSolid c := fun hmem => by
  have hother : ∀ c ∈ [' ', '\t', '#', '\n', '\r'], isKeyChar c = false :=
    Text.forall_mem_of_all (by decide)
  rw [hother c hmem] at hc
  cases hc

/-- The text starts with a character of a key. -/
theorem IsBare.exists_cons {k : Text} (hk : IsBare k) :
    ∃ c t, k = c :: t ∧ isKeyChar c = true := by
  obtain ⟨c, t, rfl⟩ := List.exists_cons_of_ne_nil hk.1
  exact ⟨c, t, rfl, hk.2 c List.mem_cons_self⟩

theorem simpleKey?_bare {k : Text} (hk : IsBare k) (r : Text) :
    simpleKey? (k ++ ' ' :: r) = some (k, ' ' :: r) := by
  obtain ⟨c, t, rfl, hc⟩ := hk.exists_cons
  have hquotes : ¬(c = '"' ∨ c = '\'') := by
    rintro (rfl | rfl) <;> revert hc <;> decide
  rw [List.cons_append, simpleKey?, if_neg hquotes, if_pos hc, ← List.cons_append,
    List.takeWhile_append_of_pos hk.2, List.dropWhile_append_of_pos hk.2,
    List.takeWhile_cons_of_neg (by decide), List.dropWhile_cons_of_neg (by decide), List.append_nil]

theorem keys?_bare {k t : Text} (hk : IsBare k) (r : Text) (ht : skipSpace t = k ++ ' ' :: '=' :: r) :
    keys? t = some ([k], '=' :: r) := by
  have hspace : skipSpace (' ' :: '=' :: r) = '=' :: r := by
    rw [skipSpace_space, skipSpace_of_solid (by decide)]
  rw [keys?, ht, simpleKey?_bare hk, Option.bind_eq_bind, Option.bind_some]
  simp only [hspace]
  rfl

theorem path?_bare {k t : Text} (hk : IsBare k) (r : Text) (ht : skipSpace t = k ++ ' ' :: '=' :: r) :
    path? t = some ([], k, '=' :: r) := by
  rw [path?, keys?_bare hk r ht]
  rfl

/-! ## Values -/

theorem splitWord_of_closes {w r : Text} (hw : ∀ c ∈ w, isWordChar c = true) (hr : Closes r) :
    splitWord (w ++ r) = (w, r) := by
  obtain ⟨c, hc, s, rfl⟩ := hr
  have hcloses : ∀ c ∈ [',', ']', '\x7d', '\n'], isWordChar c = false ∧ c ≠ ' ' :=
    Text.forall_mem_of_all (by decide)
  obtain ⟨hword, hspace⟩ := hcloses c hc
  have hstop : ¬isWordChar c = true := by rw [hword]; decide
  rw [splitWord, List.takeWhile_append_of_pos hw, List.dropWhile_append_of_pos hw,
    List.takeWhile_cons_of_neg hstop, List.dropWhile_cons_of_neg hstop, List.append_nil]
  split
  · rename_i heq
    exact absurd (List.cons.inj heq).1 hspace
  · rfl

/-- A character that a written value starts with. -/
def startsValue (c : Char) : Bool :=
  c = '"' || c = '[' || c = '\x7b' || c = 't' || c = 'f' || c = '-' || c.isDigit

theorem Writable.exists_cons {depth : Nat} {v : Toml} (h : Writable depth v) :
    ∃ c t, render v = c :: t ∧ startsValue c = true := by
  cases h with
  | text t => exact ⟨'"', _, by rw [render], by decide⟩
  | @integer _ n _ =>
    have hne : Text.ofInt n ≠ [] := List.append_ne_nil_of_right_ne_nil _ (Text.ofNat_ne_nil _)
    obtain ⟨c, t, hct⟩ := List.exists_cons_of_ne_nil hne
    refine ⟨c, t, by rw [render, hct], ?_⟩
    rcases mem_ofInt (hct ▸ List.mem_cons_self : c ∈ Text.ofInt n) with hc | rfl
    · simp [startsValue, hc]
    · decide
  | bool b => cases b <;> exact ⟨_, _, by rw [render]; rfl, by decide⟩
  | list _ => exact ⟨'[', _, by rw [render], by decide⟩
  | table _ _ _ => exact ⟨'\x7b', _, by rw [render], by decide⟩

theorem isSolid_of_startsValue {c : Char} (hc : startsValue c = true) : IsSolid c ∧ c ≠ ']' := by
  have hother : ∀ c ∈ [' ', '\t', '#', '\n', '\r', ']'], startsValue c = false :=
    Text.forall_mem_of_all (by decide)
  have hnot : c ∉ [' ', '\t', '#', '\n', '\r', ']'] := fun hmem => by
    rw [hother c hmem] at hc
    cases hc
  simpa [IsSolid, and_assoc] using hnot

theorem renderItems_exists_cons {depth : Nat} {v : Toml} (h : Writable depth v) (vs : List Toml) :
    ∃ c t, renderItems (v :: vs) = c :: t ∧ startsValue c = true := by
  obtain ⟨c, t, hct, hc⟩ := h.exists_cons
  cases vs with
  | nil => exact ⟨c, t, by rw [renderItems, hct], hc⟩
  | cons w vs => exact ⟨c, _, by rw [renderItems, hct]; rfl, hc⟩

/-- What is written of the value is read back at this depth, whatever closes it. -/
def ReadsBack (depth : Nat) (v : Toml) : Prop :=
  ∀ r, Closes r → value? depth (render v ++ r) = some (v, r)

theorem items?_render {depth : Nat} {items : List Toml} (hw : ∀ v ∈ items, Writable depth v)
    (hv : ∀ v ∈ items, ReadsBack depth v) (r : Text) :
    items? depth (renderItems items ++ ']' :: r) = some (items, r) := by
  induction items with
  | nil =>
    rw [renderItems, List.nil_append, items?]
    exact if_pos rfl
  | cons v vs ih =>
    obtain ⟨hwv, hwvs⟩ := List.forall_mem_cons.1 hw
    obtain ⟨hvv, hvvs⟩ := List.forall_mem_cons.1 hv
    obtain ⟨c, t, hct, hc⟩ := renderItems_exists_cons hwv vs
    have hhead : ¬(renderItems (v :: vs) ++ ']' :: r).head? = some ']' := by
      rw [hct]
      simpa using (isSolid_of_startsValue hc).2
    rw [items?, if_neg hhead]
    cases vs with
    | nil =>
      rw [renderItems, hvv _ ⟨']', by decide, r, rfl⟩, Option.bind_eq_bind, Option.bind_some]
      simp only [skipLines_of_solid (by decide : IsSolid ']')]
      rfl
    | cons w vs =>
      obtain ⟨d, u, hdu, hd⟩ := renderItems_exists_cons (hwvs w List.mem_cons_self) vs
      have hskip : skipLines (' ' :: (renderItems (w :: vs) ++ ']' :: r)) =
          renderItems (w :: vs) ++ ']' :: r := by
        rw [hdu, List.cons_append, skipLines_space (isSolid_of_startsValue hd).1]
      rw [renderItems, List.append_assoc, List.cons_append, List.cons_append,
        hvv _ ⟨',', by decide, _, rfl⟩, Option.bind_eq_bind, Option.bind_some]
      simp only [skipLines_of_solid (by decide : IsSolid ','), hskip]
      -- The reader goes on only while what is left gets shorter.
      rw [if_pos (by simp only [List.length_append, List.length_cons]; omega), ih hwvs hvvs]
      rfl

theorem skipSpace_render {depth : Nat} {v : Toml} (h : Writable depth v) (r : Text) :
    skipSpace (' ' :: (render v ++ r)) = render v ++ r := by
  obtain ⟨c, t, hct, hc⟩ := h.exists_cons
  rw [hct, List.cons_append, skipSpace_space, skipSpace_of_solid (isSolid_of_startsValue hc).1]

theorem skipSpace_bare {k : Text} (hk : IsBare k) (r : Text) : skipSpace (k ++ r) = k ++ r := by
  obtain ⟨c, t, rfl, hc⟩ := hk.exists_cons
  exact skipSpace_of_solid (isSolid_of_isKeyChar hc) _

theorem renderEntries_eq_append (e : Text × Toml) (es : List (Text × Toml)) :
    ∃ t, renderEntries (e :: es) = e.1 ++ t := by
  cases es with
  | nil => exact ⟨_, renderEntries.eq_2 e.1 e.2⟩
  | cons e' es => exact ⟨_, renderEntries.eq_3 e.1 e.2 e' es⟩

theorem skipSpace_renderEntries {e : Text × Toml} (he : IsBare e.1) (es : List (Text × Toml))
    (r : Text) : skipSpace (renderEntries (e :: es) ++ r) = renderEntries (e :: es) ++ r := by
  obtain ⟨t, ht⟩ := renderEntries_eq_append e es
  rw [ht, List.append_assoc, skipSpace_bare he]

/-- `t` may have a space before the entries. -/
theorem entries?_render {depth : Nat} {e : Text × Toml} {es : List (Text × Toml)}
    (hbare : ∀ e' ∈ e :: es, IsBare e'.1) (hw : ∀ e' ∈ e :: es, Writable depth e'.2)
    (hv : ∀ e' ∈ e :: es, ReadsBack depth e'.2) (r : Text) {t : Text}
    (ht : skipSpace t = renderEntries (e :: es) ++ '\x7d' :: r) :
    entries? depth t = some ((e :: es).map fun e' => ([], e'.1, e'.2), r) := by
  -- The entry in front changes from step to step, and only later ones have a space before them.
  induction es generalizing e t with
  | nil =>
    obtain ⟨k, v⟩ := e
    obtain ⟨hbare, -⟩ := List.forall_mem_cons.1 hbare
    obtain ⟨hw, -⟩ := List.forall_mem_cons.1 hw
    obtain ⟨hv, -⟩ := List.forall_mem_cons.1 hv
    simp only [renderEntries, List.append_assoc, List.cons_append] at ht
    rw [entries?, path?_bare hbare _ ht, Option.bind_eq_bind, Option.bind_some]
    simp only [skipSpace_render hw]
    rw [hv _ ⟨'\x7d', by decide, r, rfl⟩, Option.bind_eq_bind, Option.bind_some]
    simp only [skipSpace_of_solid (by decide : IsSolid '\x7d')]
    rfl
  | cons e' es ih =>
    obtain ⟨k, v⟩ := e
    obtain ⟨hbare, hbares⟩ := List.forall_mem_cons.1 hbare
    obtain ⟨hw, hws⟩ := List.forall_mem_cons.1 hw
    obtain ⟨hv, hvs⟩ := List.forall_mem_cons.1 hv
    have hshorter := skipSpace_length_le t
    have hnext : skipSpace (' ' :: (renderEntries (e' :: es) ++ '\x7d' :: r)) =
        renderEntries (e' :: es) ++ '\x7d' :: r := by
      rw [skipSpace_space, skipSpace_renderEntries (hbares _ List.mem_cons_self)]
    simp only [renderEntries, List.append_assoc, List.cons_append] at ht
    rw [ht] at hshorter
    rw [entries?, path?_bare hbare _ ht, Option.bind_eq_bind, Option.bind_some]
    simp only [skipSpace_render hw]
    rw [hv _ ⟨',', by decide, _, rfl⟩, Option.bind_eq_bind, Option.bind_some]
    simp only [skipSpace_of_solid (by decide : IsSolid ',')]
    rw [if_pos (by simp only [List.length_append, List.length_cons] at hshorter ⊢; omega),
      ih hbares hws hvs hnext]
    rfl

/-- Entries of a document that are values. -/
def drafts (es : List (Text × Toml)) : Draft.Entries := es.map fun e => (e.1, .value e.2)

theorem closeEntries_drafts (es : List (Text × Toml)) : Draft.closeEntries (drafts es) = es := by
  induction es with
  | nil => rfl
  | cons e es ih =>
    rw [drafts, List.map_cons, Draft.closeEntries, Draft.close]
    exact congrArg _ ih

theorem addEntry_drafts {ds : List (Text × Toml)} {e : Text × Toml} (he : e.1 ∉ ds.map Prod.fst) :
    Draft.addEntry e.1 e.2 [] true (drafts ds) = some (drafts (ds ++ [e])) := by
  have hlookup : (drafts ds).lookup e.1 = none := by
    refine List.lookup_eq_none_iff.2 fun d hd => ?_
    obtain ⟨d', hd', rfl⟩ := List.mem_map.1 hd
    simpa using fun heq : e.1 = d'.1 => he (heq ▸ List.mem_map_of_mem hd')
  rw [Draft.addEntry, hlookup, if_pos ⟨rfl, rfl⟩, drafts, drafts, List.map_append]
  rfl

/-- Where each step adds one entry, all of them are added, in inline tables as in documents. -/
theorem foldlM_drafts {β σ : Type} (f : σ → β → Option σ) (g : Text × Toml → β)
    (state : Draft.Entries → σ)
    (hstep : ∀ ds e, e.1 ∉ ds.map Prod.fst →
      f (state (drafts ds)) (g e) = some (state (drafts (ds ++ [e]))))
    (ds : List (Text × Toml)) {es : List (Text × Toml)} (hnodup : ((ds ++ es).map Prod.fst).Nodup) :
    (es.map g).foldlM f (state (drafts ds)) = some (state (drafts (ds ++ es))) := by
  induction es generalizing ds with
  | nil =>
    rw [List.append_nil]
    rfl
  | cons e es ih =>
    have hnew : e.1 ∉ ds.map Prod.fst := fun hmem => by
      rw [List.map_append, List.nodup_append] at hnodup
      exact hnodup.2.2 _ hmem _ List.mem_cons_self rfl
    rw [List.append_cons] at hnodup ⊢
    rw [List.map_cons, List.foldlM_cons, hstep ds e hnew, Option.bind_eq_bind, Option.bind_some,
      ih _ hnodup]

theorem inlineTable?_values {es : List (Text × Toml)} (hnodup : (es.map Prod.fst).Nodup) :
    inlineTable? (es.map fun e => ([], e.1, e.2)) = some (.table es) := by
  have hfold := foldlM_drafts
    (fun ds (e : List Text × Text × Toml) => Draft.addEntry e.2.1 e.2.2 e.1 true ds)
    (fun e => ([], e.1, e.2)) id (fun _ _ h => addEntry_drafts h) [] hnodup
  refine (congrArg (Option.bind · fun ds => some (Toml.table (Draft.closeEntries ds))) hfold).trans ?_
  simp only [id, Option.bind_some, List.nil_append, closeEntries_drafts]

theorem value?_word {depth : Nat} {w r : Text} {v : Toml} (hword : word? w = some v)
    (hw : ∀ c ∈ w, isWordChar c = true) (hne : w ≠ []) (hr : Closes r) :
    value? depth (w ++ r) = some (v, r) := by
  obtain ⟨c, t, rfl⟩ := List.exists_cons_of_ne_nil hne
  have hmark : ∀ d ∈ ['"', '\'', '[', '\x7b'], c ≠ d := by
    rintro d hd rfl
    have hother : ∀ d ∈ ['"', '\'', '[', '\x7b'], isWordChar d = false :=
      Text.forall_mem_of_all (by decide)
    have hword := hw c List.mem_cons_self
    rw [hother c hd] at hword
    cases hword
  rw [List.cons_append, value?.eq_def]
  simp only
  rw [if_neg (by simp [hmark]), if_neg (hmark _ (by decide)),
    if_neg (hmark _ (by decide)), ← List.cons_append, splitWord_of_closes hw hr]
  simp only [hword]
  rfl

theorem isWordChar_of_mem_ofInt {n : Int} {c : Char} (hc : c ∈ Text.ofInt n) :
    isWordChar c = true := by
  rcases mem_ofInt hc with hc | rfl
  · simp [isWordChar, Char.isAlphanum, hc]
  · decide

theorem value?_render {depth : Nat} {v : Toml} (h : Writable depth v) : ReadsBack depth v := by
  induction h with
  | text t =>
    intro r hr
    have hhead : r.head? ≠ some '"' := by
      obtain ⟨c, hc, s, rfl⟩ := hr
      have hother : ∀ c ∈ [',', ']', '\x7d', '\n'], c ≠ '"' := Text.forall_mem_of_all (by decide)
      simpa using hother c hc
    rw [render, List.cons_append, List.append_assoc, List.singleton_append, value?.eq_def]
    simp only
    rw [if_pos (.inl trivial), string?_render t r hhead]
    rfl
  | @integer _ n hn =>
    intro r hr
    have hne : Text.ofInt n ≠ [] := List.append_ne_nil_of_right_ne_nil _ (Text.ofNat_ne_nil _)
    rw [render, value?_word (word?_ofInt hn) (fun _ => isWordChar_of_mem_ofInt) hne hr]
  | bool b =>
    intro r hr
    cases b <;> exact value?_word rfl (Text.forall_mem_of_all (by decide)) (by decide) hr
  | @list depth items hw ih =>
    intro r hr
    have hskip : skipLines (renderItems items ++ ']' :: r) = renderItems items ++ ']' :: r := by
      cases items with
      | nil => exact skipLines_of_solid (by decide) r
      | cons v vs =>
        obtain ⟨c, t, hct, hc⟩ := renderItems_exists_cons (hw v List.mem_cons_self) vs
        rw [hct, List.cons_append, skipLines_of_solid (isSolid_of_startsValue hc).1]
    rw [render, List.cons_append, List.append_assoc, List.singleton_append, value?.eq_def]
    simp only
    rw [if_neg (by decide), if_pos trivial, hskip, items?_render hw ih]
    rfl
  | @table depth es hnodup hbare hw ih =>
    intro r hr
    rw [render, List.cons_append, List.append_assoc, List.singleton_append, value?.eq_def]
    simp only
    rw [if_neg (by decide), if_neg (by decide), if_pos trivial]
    cases es with
    | nil =>
      rw [renderEntries, List.nil_append, skipSpace_of_solid (by decide)]
      rfl
    | cons e es =>
      have hspace := skipSpace_renderEntries (hbare _ List.mem_cons_self) es ('\x7d' :: r)
      rw [hspace]
      split
      · rename_i heq
        obtain ⟨t, ht⟩ := renderEntries_eq_append e es
        obtain ⟨c, k, hk, hc⟩ := (hbare _ List.mem_cons_self).exists_cons
        rw [ht, hk] at heq
        rw [(List.cons.inj heq).1] at hc
        exact absurd hc (by decide)
      · rw [entries?_render hbare hw ih r hspace, Option.bind_eq_bind, Option.bind_some]
        simp only [inlineTable?_values hnodup]
        rfl

/-! ## Documents -/

theorem statement?_entry {k : Text} {v : Toml} (hk : IsBare k) (hv : Writable (depthLimit - 1) v)
    (r : Text) :
    statement? (k ++ ' ' :: '=' :: ' ' :: (render v ++ '\n' :: r)) = some (.entry [] k v, '\n' :: r) := by
  have hpath := path?_bare hk _ (skipSpace_bare hk (' ' :: '=' :: ' ' :: (render v ++ '\n' :: r)))
  obtain ⟨c, t, hct, hc⟩ := hk.exists_cons
  have hbracket : c ≠ '[' := by
    rintro rfl
    exact absurd hc (by decide)
  unfold statement?
  split
  · rename_i heq
    rw [hct] at heq
    exact absurd (List.cons.inj heq).1 hbracket
  · rename_i heq
    rw [hct] at heq
    exact absurd (List.cons.inj heq).1 hbracket
  · rw [hpath, Option.bind_eq_bind, Option.bind_some]
    simp only [skipSpace_render hv]
    rw [value?_render hv _ ⟨'\n', by decide, r, rfl⟩]
    rfl

theorem endOfStatement?_lineEnd (r : Text) : endOfStatement? ('\n' :: r) = some r := by
  have hspace : skipSpace ('\n' :: r) = '\n' :: r := List.dropWhile_cons_of_neg (by decide)
  rw [endOfStatement?, hspace]
  rfl

theorem statements?_write {es : List (Text × Toml)} (hbare : ∀ e ∈ es, IsBare e.1)
    (hw : ∀ e ∈ es, Writable (depthLimit - 1) e.2) :
    statements? (write es) = some (es.map fun e => .entry [] e.1 e.2) := by
  induction es with
  | nil =>
    have hskip : skipLines [] = [] := by
      rw [skipLines]
      rfl
    rw [write, List.flatMap_nil, statements?, hskip]
    rfl
  | cons e es ih =>
    obtain ⟨hk, hbare⟩ := List.forall_mem_cons.1 hbare
    obtain ⟨hv, hw⟩ := List.forall_mem_cons.1 hw
    have hwrite : write (e :: es) =
        e.1 ++ ' ' :: '=' :: ' ' :: (render e.2 ++ '\n' :: write es) := by
      simp [write]
    have hskip : skipLines (write (e :: es)) = write (e :: es) := by
      obtain ⟨c, t, hct, hc⟩ := hk.exists_cons
      rw [hwrite, hct, List.cons_append, skipLines_of_solid (isSolid_of_isKeyChar hc)]
    rw [statements?, hskip]
    split
    · rename_i heq
      rw [hwrite] at heq
      simp at heq
    · have hlength : (write es).length < (write (e :: es)).length := by
        rw [hwrite]
        simp only [List.length_append, List.length_cons]
        omega
      rw [hwrite] at hlength ⊢
      rw [statement?_entry hk hv, Option.bind_eq_bind, Option.bind_some]
      simp only [endOfStatement?_lineEnd, Option.bind_eq_bind, Option.bind_some, if_pos hlength,
        ih hbare hw]
      rfl

theorem read?_write {es : List (Text × Toml)} (hnodup : (es.map Prod.fst).Nodup)
    (hbare : ∀ e ∈ es, IsBare e.1) (hw : ∀ e ∈ es, Writable (depthLimit - 1) e.2) :
    read? (write es) = some es := by
  have hmark : ∀ r, write es ≠ '\ufeff' :: r := by
    intro r heq
    cases es with
    | nil => cases heq
    | cons e es =>
      obtain ⟨c, t, hct, hc⟩ := (hbare e List.mem_cons_self).exists_cons
      rw [write, List.flatMap_cons, hct] at heq
      rw [(List.cons.inj heq).1] at hc
      exact absurd hc (by decide)
  -- No table is opened, so each statement adds its entry to the root.
  have hfold := foldlM_drafts Progress.add (fun e => .entry [] e.1 e.2) (⟨·, []⟩)
    (fun ds e h => by rw [Progress.add, Draft.descend, addEntry_drafts h]; rfl) [] hnodup
  rw [read?, statements?_write hbare hw, Option.bind_eq_bind, Option.bind_some, ofStatements?]
  · refine (congrArg (Option.bind · fun p => some (Draft.closeEntries p.root)) hfold).trans ?_
    rw [Option.bind_some, List.nil_append, closeEntries_drafts]
  · exact hmark

end QuickFix.Toml
