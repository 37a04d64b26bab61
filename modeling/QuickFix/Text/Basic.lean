/-!
# Text

A text is a list of characters. Places in it are counted in bytes of its UTF-8 form, and columns in
UTF-16 code units; both are sums of a width over the characters, and `Text.cut?` splits a text where
such a sum has a given value. `cut?_eq_some_iff` says that a cut loses nothing and falls exactly
there.
-/

namespace QuickFix

/-- A text as its characters, in order. -/
abbrev Text := List Char

instance : Coe String Text := ⟨String.toList⟩

namespace Text

/-! ## Widths -/

/-- Total width of a text when each character counts as `w` says. -/
def width (w : Char → Nat) : Text → Nat
  | [] => 0
  | c :: t => w c + width w t

/-- Number of bytes of the UTF-8 form. -/
def bytes (t : Text) : Nat := width Char.utf8Size t

/-- Number of UTF-16 code units of one character. -/
def unitCount (c : Char) : Nat := if c.val < 0x10000 then 1 else 2

/-- Number of UTF-16 code units. -/
def units (t : Text) : Nat := width unitCount t

@[simp] theorem width_nil (w : Char → Nat) : width w [] = 0 := rfl

@[simp] theorem width_cons (w : Char → Nat) (c : Char) (t : Text) :
    width w (c :: t) = w c + width w t := rfl

@[simp] theorem width_append (w : Char → Nat) (a b : Text) :
    width w (a ++ b) = width w a + width w b := by
  induction a with
  | nil => simp
  | cons c a ih => simp [ih, Nat.add_assoc]

@[simp] theorem bytes_nil : bytes [] = 0 := rfl

@[simp] theorem bytes_cons (c : Char) (t : Text) : bytes (c :: t) = c.utf8Size + bytes t := rfl

@[simp] theorem bytes_append (a b : Text) : bytes (a ++ b) = bytes a + bytes b := width_append ..

theorem bytes_pos {t : Text} (h : t ≠ []) : 0 < bytes t := by
  obtain ⟨c, u, rfl⟩ := List.exists_cons_of_ne_nil h
  exact Nat.lt_of_lt_of_le c.utf8Size_pos (Nat.le_add_right _ _)

@[simp] theorem units_nil : units [] = 0 := rfl

@[simp] theorem units_cons (c : Char) (t : Text) : units (c :: t) = unitCount c + units t := rfl

@[simp] theorem units_append (a b : Text) : units (a ++ b) = units a + units b := width_append ..

theorem unitCount_pos (c : Char) : 0 < unitCount c := by
  unfold unitCount; split <;> decide

/-! ## Cutting -/

/-- The two sides of the place at width `n` from the start; `none` if that place is inside a
character or past the end. -/
def cut? (w : Char → Nat) : Nat → Text → Option (Text × Text)
  | 0, t => some ([], t)
  | _ + 1, [] => none
  | n + 1, c :: t =>
    if w c ≤ n + 1 then (cut? w (n + 1 - w c) t).map fun (a, b) => (c :: a, b) else none

/-- Cut at a byte offset. -/
def cutBytes? (n : Nat) (t : Text) : Option (Text × Text) := cut? Char.utf8Size n t

theorem cut?_eq_some_iff {w : Char → Nat} (hw : ∀ c, 0 < w c) {n : Nat} {t a b : Text} :
    cut? w n t = some (a, b) ↔ t = a ++ b ∧ width w a = n := by
  induction t generalizing n a with
  | nil =>
    cases n with
    | zero => simp [cut?]; grind [width]
    | succ n => simp [cut?]; grind [width]
  | cons c t ih =>
    cases n with
    | zero =>
      simp only [cut?, Option.some.injEq, Prod.mk.injEq]
      constructor
      · rintro ⟨rfl, rfl⟩; simp
      · rintro ⟨h, h0⟩
        cases a with
        | nil => exact ⟨rfl, by simpa using h⟩
        | cons d a => have := hw d; simp at h0; omega
    | succ n =>
      simp only [cut?]
      split
      · rename_i hc
        simp only [Option.map_eq_some_iff, Prod.exists, Prod.mk.injEq]
        constructor
        · rintro ⟨a', b', h, rfl, rfl⟩
          obtain ⟨rfl, h⟩ := ih.1 h
          exact ⟨rfl, by simp; omega⟩
        · rintro ⟨h, hn⟩
          cases a with
          | nil => simp at hn
          | cons d a =>
            simp only [List.cons_append, List.cons.injEq] at h
            obtain ⟨rfl, rfl⟩ := h
            simp only [width_cons] at hn
            exact ⟨a, b, ih.2 ⟨rfl, by omega⟩, rfl, rfl⟩
      · rename_i hc
        simp only [reduceCtorEq, false_iff, not_and]
        rintro h hn
        cases a with
        | nil => simp at hn
        | cons d a =>
          simp only [List.cons_append, List.cons.injEq] at h
          obtain ⟨rfl, rfl⟩ := h
          simp only [width_cons] at hn
          omega

theorem cutBytes?_eq_some_iff {n : Nat} {t a b : Text} :
    cutBytes? n t = some (a, b) ↔ t = a ++ b ∧ bytes a = n :=
  cut?_eq_some_iff Char.utf8Size_pos

/-- A text has one cut at a byte offset. -/
theorem eq_of_bytes_eq {a b a' b' : Text} (h : a ++ b = a' ++ b') (hb : bytes a = bytes a') :
    a = a' ∧ b = b' := by
  have hcut : cutBytes? (bytes a) (a ++ b) = some (a, b) := cutBytes?_eq_some_iff.2 ⟨rfl, rfl⟩
  rw [cutBytes?_eq_some_iff.2 ⟨h, hb.symm⟩] at hcut
  simpa [eq_comm] using hcut

/-- Part of a text between two byte offsets; `none` unless both are places between characters, in
order. -/
def slice? (start stop : Nat) (t : Text) : Option Text := do
  let (_, r) ← cutBytes? start t
  let (m, _) ← if start ≤ stop then cutBytes? (stop - start) r else none
  return m

theorem slice?_eq_some_iff {start stop : Nat} {t m : Text} : slice? start stop t = some m ↔
    ∃ a b, t = a ++ (m ++ b) ∧ bytes a = start ∧ stop = start + bytes m := by
  unfold slice?
  constructor
  · intro h
    obtain ⟨⟨a, r⟩, ha, h⟩ := Option.bind_eq_some_iff.1 h
    obtain ⟨ht, ha⟩ := cutBytes?_eq_some_iff.1 ha
    by_cases hle : start ≤ stop
    · simp only [if_pos hle] at h
      obtain ⟨⟨m', b⟩, hm, h⟩ := Option.bind_eq_some_iff.1 h
      obtain ⟨hr, hm⟩ := cutBytes?_eq_some_iff.1 hm
      obtain rfl : m' = m := Option.some.inj h
      exact ⟨a, b, hr ▸ ht, ha, by omega⟩
    · simp [if_neg hle] at h
  · rintro ⟨a, b, ht, ha, rfl⟩
    have hm : cutBytes? (bytes m) (m ++ b) = some (m, b) := cutBytes?_eq_some_iff.2 ⟨rfl, rfl⟩
    simp [cutBytes?_eq_some_iff.2 ⟨ht, ha⟩, hm]

/-- The offset is a place between two characters, or an end of the text. -/
def IsBoundary (t : Text) (n : Nat) : Prop := ∃ a b, t = a ++ b ∧ bytes a = n

/-! ## Searching -/

/-- What follows `p`, if the text starts with `p`. -/
def after? : Text → Text → Option Text
  | [], t => some t
  | _ :: _, [] => none
  | c :: p, d :: t => if c = d then after? p t else none

theorem after?_eq_some_iff {p t r : Text} : after? p t = some r ↔ t = p ++ r := by
  induction p generalizing t with
  | nil => simp [after?]
  | cons c p ih => cases t <;> grind [after?]

/-- Does the text start with `p`? -/
def startsWith (t p : Text) : Bool := (after? p t).isSome

/-- Does the text end with `p`? -/
def endsWith (t p : Text) : Bool := startsWith t.reverse p.reverse

/-- What comes before and after the first occurrence of `p`. -/
def around? (p : Text) : Text → Option (Text × Text)
  | [] => if p = [] then some ([], []) else none
  | c :: t =>
    match after? p (c :: t) with
    | some r => some ([], r)
    | none => (around? p t).map fun (a, b) => (c :: a, b)

/-- Does `p` occur in the text? -/
def contains (t p : Text) : Bool := (around? p t).isSome

theorem eq_append_of_around? {p t a b : Text} (h : around? p t = some (a, b)) :
    t = a ++ p ++ b := by
  induction t generalizing a with
  | nil => simp only [around?] at h; split at h <;> simp_all
  | cons c t ih =>
    simp only [around?] at h
    split at h
    · rename_i r hr
      cases h
      simpa using after?_eq_some_iff.1 hr
    · obtain ⟨⟨a', b'⟩, h', he⟩ := Option.map_eq_some_iff.1 h
      cases he
      simp [ih h']

/-- The text with every occurrence of `old`, found from the left without overlap, replaced by `new`;
an empty `old` occurs nowhere. -/
def replaceAll (old new : Text) : Text → Text
  | [] => []
  | c :: t =>
    match after? old (c :: t) with
    | some r =>
      if _hr : r.length < (c :: t).length then new ++ replaceAll old new r
      else c :: replaceAll old new t
    | none => c :: replaceAll old new t
termination_by t => t.length
decreasing_by
  · exact _hr
  · exact Nat.lt_succ_self t.length
  · exact Nat.lt_succ_self t.length

theorem replaceAll_eq_self {old t : Text} (new : Text) (h : around? old t = none) :
    replaceAll old new t = t := by
  induction t with
  | nil => rw [replaceAll]
  | cons c t ih =>
    cases hr : after? old (c :: t) with
    | some r => simp [around?, hr] at h
    | none =>
      have ht : around? old t = none := by simpa [around?, hr] using h
      rw [replaceAll, hr, ih ht]

theorem replaceAll_of_around? {old t a b : Text} (new : Text) (hold : old ≠ [])
    (h : around? old t = some (a, b)) :
    replaceAll old new t = a ++ (new ++ replaceAll old new b) := by
  induction t generalizing a with
  | nil => simp [around?, hold] at h
  | cons c t ih =>
    cases hr : after? old (c :: t) with
    | some r =>
      simp only [around?, hr] at h
      obtain ⟨rfl, rfl⟩ := Prod.mk.inj (Option.some.inj h)
      have hlt : r.length < (c :: t).length := by
        rw [after?_eq_some_iff.1 hr, List.length_append]
        exact Nat.lt_add_of_pos_left (List.length_pos_iff.2 hold)
      rw [replaceAll, hr]
      exact dif_pos hlt
    | none =>
      simp only [around?, hr] at h
      obtain ⟨⟨a', b'⟩, h', he⟩ := Option.map_eq_some_iff.1 h
      obtain ⟨rfl, rfl⟩ := Prod.mk.inj he
      rw [replaceAll, hr, ih h']
      rfl

/-! ## Splitting -/

/-- Pieces of a text, each up to and with its line feed; only the last may lack one, and none is
empty. -/
def rows : Text → List Text
  | [] => []
  | c :: t =>
    if c = '\n' then [c] :: rows t
    else match rows t with
      | [] => [[c]]
      | p :: ps => (c :: p) :: ps

@[simp] theorem flatten_rows (t : Text) : (rows t).flatten = t := by
  induction t with
  | nil => rfl
  | cons c t ih =>
    simp only [rows]
    split
    · simp [ih]
    · cases h : rows t with
      | nil => rw [h] at ih; simp at ih; simp [← ih]
      | cons p ps => rw [h] at ih; simp at ih; simp [ih]

/-- The text without the characters at its end that satisfy `p`. -/
def dropEndWhile (p : Char → Bool) (t : Text) : Text := (t.reverse.dropWhile p).reverse

/-- The text without its line feeds and carriage returns at the end. -/
def chomp (t : Text) : Text := dropEndWhile (fun c => c = '\n' || c = '\r') t

/-- The text without its line feed at the end, and without one carriage return before that. -/
def chompOne (t : Text) : Text :=
  match t.reverse with
  | '\n' :: '\r' :: r => r.reverse
  | '\n' :: r => r.reverse
  | _ => t

/-- The lines of a text, without their line ends. -/
def lineTexts (t : Text) : List Text := (rows t).map chompOne

/-- Lowercase of the ASCII letters; other characters stay. -/
def lower (t : Text) : Text := t.map Char.toLower

/-- Decimal digits of a number. -/
def ofNat (n : Nat) : Text := Nat.toDigits 10 n

/-- Decimal digits of an integer, with its sign. -/
def ofInt (n : Int) : Text := (if n < 0 then ['-'] else []) ++ ofNat n.natAbs

/-- Texts with `sep` between neighbours. -/
def join (sep : Text) (ts : List Text) : Text := sep.intercalate ts

end Text

end QuickFix
