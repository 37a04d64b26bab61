import QuickFix.Proofs.Name
import QuickFix.Proofs.Source.Importing
import QuickFix.Proofs.Text.Rows

/-!
# The lines of a new import

An import is put in as whole rows, and these are read back by the reader that found the imports before.

* `covers_iff`: an import brings in a class by its name or by the name of its package and a star;
* `importPath?_importStatement`: the row of an import is read as the name that it was made for;
* `putsRows_importText`: the rows of a text with an import put in at its place;
* `exists_addImports`: after several imports, each class that was not brought in before has one row.
-/

namespace QuickFix

namespace Text

/-! ## Characters of names -/

/-- The numbers of the blank characters. -/
def blanks : List Nat :=
  List.range' 9 5 ++ [0x20, 0x85, 0xa0, 0x1680] ++ List.range' 0x2000 11 ++
    [0x2028, 0x2029, 0x202f, 0x205f, 0x3000]

theorem toNat_mem_blanks {c : Char} (h : isBlank c = true) : c.toNat ∈ blanks := by
  simp only [isBlank, Bool.or_eq_true, Bool.and_eq_true, decide_eq_true_eq, beq_iff_eq] at h
  simp only [blanks, List.mem_append, List.mem_range'_1, List.mem_cons, List.not_mem_nil, or_false]
  omega

theorem isBlank_eq_false_of_isIdentContinue {c : Char} (h : isIdentContinue c = true) :
    isBlank c = false := by
  have hall : ∀ n ∈ blanks, isIdentContinue (Char.ofNat n) = false := by decide +kernel
  rw [Bool.eq_false_iff]
  intro hb
  have hc := hall _ (toNat_mem_blanks hb)
  rw [Char.ofNat_toNat, h] at hc
  cases hc

theorem isDotted_ne_nil {t : Text} (h : isDotted t = true) : t ≠ [] := by
  rintro rfl
  exact absurd h (by decide)

theorem isBlank_of_isDotted {t : Text} (h : isDotted t = true) : ∀ c ∈ t, isBlank c = false := by
  intro c hc
  rcases isDotted_chars h c hc with rfl | hc
  · decide
  · exact isBlank_eq_false_of_isIdentContinue hc

theorem not_mem_of_isDotted {t : Text} {c : Char} (h : isDotted t = true)
    (hc : c = ';' ∨ c = '*' ∨ c = '\n' ∨ c = '\r') : c ∉ t := by
  intro hm
  rcases isDotted_chars h c hm with hd | hd
  · subst hd
    simp at hc
  · rcases hc with rfl | rfl | rfl | rfl <;> exact absurd hd (by decide)

/-! ## Texts without blanks -/

theorem trimStart_eq_self {t : Text} (h : ∀ c ∈ t.head?, isBlank c = false) : trimStart t = t := by
  cases t with
  | nil => rfl
  | cons c t => rw [trimStart, List.dropWhile_cons_of_neg (by simp [h c rfl])]

theorem trim_eq_self {t : Text} (h : ∀ c ∈ t, isBlank c = false) : trim t = t := by
  rw [trim, trimStart_eq_self fun c hc => h c (List.mem_of_mem_head? hc)]
  exact dropEndWhile_eq_self fun c hc => h c (List.mem_of_getLast? hc)

theorem firstWord_eq_self {t : Text} (h : ∀ c ∈ t, isBlank c = false) : firstWord t = t := by
  have hp : ∀ c ∈ t, (!isBlank c) = true := fun c hc => by simp [h c hc]
  rw [firstWord, ← List.append_nil t, List.takeWhile_append_of_pos hp, List.takeWhile_nil]

theorem endsWith_newline_iff {t : Text} : endsWith t ['\n'] = true ↔ '\n' ∈ t.getLast? := by
  rw [endsWith, startsWith, List.getLast?_eq_head?_reverse, Option.isSome_iff_exists]
  constructor
  · rintro ⟨r, hr⟩
    rw [after?_eq_some_iff.1 hr]
    rfl
  · intro h
    obtain ⟨r, hr⟩ := List.head?_eq_some_iff.1 h
    exact ⟨r, after?_eq_some_iff.2 hr⟩

end Text

namespace Source

/-! ## What an import brings in -/

theorem covers_iff {path : Text} {q : QualifiedName} : covers path q.text = true ↔
    path = q.text ∨ ∃ p, q.package? = some p ∧ path = p.text ++ (".*" : Text) := by
  have star : ∀ {package : Text}, Text.after? ['*', '.'] path.reverse = some package ↔
      path = package.reverse ++ (".*" : Text) := by
    intro package
    rw [Text.after?_eq_some_iff, ← List.reverse_inj, List.reverse_reverse]
    simp
  rw [covers, Bool.or_eq_true, decide_eq_true_eq]
  refine or_congr Iff.rfl ⟨fun h => ?_, ?_⟩
  · split at h
    · rename_i package hp
      split at h
      · rename_i simple hs
        have hq := Text.after?_eq_some_iff.1 hs
        refine ⟨⟨package.reverse⟩, QualifiedName.package?_eq_some_iff.2 ⟨simple, ?_, ?_⟩,
          star.1 hp⟩
        · simpa using hq
        · simpa using h
      · cases h
    · cases h
  · rintro ⟨p, hp, hpath⟩
    obtain ⟨simple, hq, hs⟩ := QualifiedName.package?_eq_some_iff.1 hp
    have hpackage : Text.after? ['*', '.'] path.reverse = some p.text.reverse :=
      star.2 (by rw [hpath, List.reverse_reverse])
    have hsimple : Text.after? (p.text.reverse.reverse ++ ['.']) q.text = some simple := by
      rw [Text.after?_eq_some_iff, hq]
      simp
    rw [hpackage]
    simp only [hsimple]
    simpa using hs

/-- A name that is no wildcard brings in the class of this name only. -/
theorem covers_of_isDotted {path : Text} {q : QualifiedName} (h : Text.isDotted path = true) :
    covers path q.text = true ↔ path = q.text := by
  rw [covers_iff]
  refine or_iff_left ?_
  rintro ⟨p, -, hp⟩
  refine Text.not_mem_of_isDotted (c := '*') h (by simp) ?_
  rw [hp]
  simp

/-! ## The row of an import -/

theorem afterWord?_eq_none {word t : Text} (h : ∀ c ∈ t, Text.isBlank c = false) :
    afterWord? word t = none := by
  rw [Option.eq_none_iff_forall_ne_some]
  intro r hr
  obtain ⟨hr, hb⟩ := Option.filter_eq_some_iff.1 hr
  cases r with
  | nil => cases hb
  | cons c r =>
    have hc : c ∈ t := by
      rw [Text.after?_eq_some_iff.1 hr]
      exact List.mem_append_right _ List.mem_cons_self
    have hblank : Text.isBlank c = true := hb
    rw [h c hc] at hblank
    cases hblank

theorem importPath?_importStatement {q : QualifiedName} (hq : Text.isDotted q.text = true) :
    importPath? (importStatement q) = some q.text := by
  obtain ⟨x, u, hx⟩ := List.exists_cons_of_ne_nil (Text.isDotted_ne_nil hq)
  have hblank := Text.isBlank_of_isDotted hq
  have hafter : afterWord? "import" (Text.trimStart (importStatement q)) =
      some (' ' :: (q.text ++ [';'])) := by
    have hs : Text.trimStart (importStatement q) =
        ("import" : Text) ++ (' ' :: (q.text ++ [';'])) := rfl
    have hword : Text.after? "import" (Text.trimStart (importStatement q)) =
        some (' ' :: (q.text ++ [';'])) := Text.after?_eq_some_iff.2 hs
    rw [afterWord?, hword]
    rfl
  have hrest : Text.trimStart (' ' :: (q.text ++ [';'])) = q.text ++ [';'] := by
    have hx' : Text.isBlank x = false := hblank x (by rw [hx]; exact List.mem_cons_self)
    rw [hx, Text.trimStart, List.dropWhile_cons_of_pos (by decide), List.cons_append,
      List.dropWhile_cons_of_neg (by simp [hx'])]
  have hsemi : ∀ c ∈ q.text ++ [';'], Text.isBlank c = false :=
    List.forall_mem_append.2 ⟨hblank, List.forall_mem_singleton.2 (by decide)⟩
  have hstatic : (afterWord? "static" (q.text ++ [';'])).isSome = false := by
    rw [afterWord?_eq_none hsemi]
    rfl
  have hname : (q.text ++ [';']).takeWhile (· ≠ ';') = q.text := by
    have hsemi : ';' ∉ q.text := Text.not_mem_of_isDotted hq (.inl rfl)
    rw [List.takeWhile_append_of_pos, List.takeWhile_cons_of_neg (by simp), List.append_nil]
    intro c hc
    exact decide_eq_true fun h => hsemi (h ▸ hc)
  have hempty : q.text.isEmpty = false := by rw [hx]; rfl
  rw [importPath?, hafter]
  simp only [Option.bind_eq_bind, Option.bind_some, hrest, hstatic, hname,
    Text.trim_eq_self hblank, Text.firstWord_eq_self hblank, hempty]
  rfl

/-! ## Rows above and below the place -/

theorem throughFirst?_dropLast {p : Text → Bool} {rs a b : List Text}
    (h : throughFirst? p rs = some (a, b)) : ∀ r ∈ a.dropLast, p r = false := by
  induction rs generalizing a with
  | nil => cases h
  | cons r rs ih =>
    rw [throughFirst?] at h
    split at h
    · cases h
      simp
    · rename_i hr
      obtain ⟨⟨a', b'⟩, h', he⟩ := Option.map_eq_some_iff.1 h
      cases he
      intro x hx
      cases a' with
      | nil => cases hx
      | cons y a' =>
        rw [List.dropLast_cons_cons] at hx
        rcases List.mem_cons.1 hx with rfl | hx
        · simpa using hr
        · exact ih h' x hx

theorem throughFirst?_eq_none {p : Text → Bool} {rs : List Text}
    (h : throughFirst? p rs = none) : ∀ r ∈ rs, p r = false := by
  induction rs with
  | nil => simp
  | cons r rs ih =>
    rw [throughFirst?] at h
    split at h
    · cases h
    · rename_i hr
      exact List.forall_mem_cons.2 ⟨by simpa using hr, ih (Option.map_eq_none_iff.1 h)⟩

/-- No row below the last one that satisfies `p` does. -/
theorem throughLast?_below {p : Text → Bool} {rs a b : List Text}
    (h : throughLast? p rs = some (a, b)) : ∀ r ∈ b, p r = false := by
  obtain ⟨⟨c, d⟩, h', he⟩ := Option.map_eq_some_iff.1 h
  obtain ⟨-, rfl⟩ := Prod.mk.inj he
  intro r hr
  exact throughFirst?_dropLast h' r (List.mem_reverse.1 hr)

theorem throughLast?_eq_none {p : Text → Bool} {rs : List Text}
    (h : throughLast? p rs = none) : ∀ r ∈ rs, p r = false := by
  intro r hr
  exact throughFirst?_eq_none (Option.map_eq_none_iff.1 h) r (List.mem_reverse.2 hr)

theorem importPaths_eq (t : Text) : importPaths t = (Text.bareRows t).filterMap importPath? := by
  rw [Text.bareRows, List.filterMap_map]
  rfl

/-- All imports of a text stand above the place of a new one. -/
theorem importPaths_below {t after : Text} (h : t = (importPlace t).before ++ after) :
    importPaths after = [] := by
  obtain ⟨above, below, hrows, hbefore, hnone⟩ : ∃ above below, Text.rows t = above ++ below ∧
      (importPlace t).before = above.flatten ∧
      ∀ row ∈ below, (importPath? (Text.chomp row)).isSome = false := by
    cases hl : throughLast? (fun row => (importPath? (Text.chomp row)).isSome) (Text.rows t) with
    | some p =>
      refine ⟨p.1, p.2, throughLast?_eq hl, ?_, throughLast?_below hl⟩
      simp only [importPlace, hl]
    | none =>
      obtain ⟨above, below, hrows, hbefore⟩ := importPlace_rows t
      refine ⟨above, below, hrows, hbefore, fun row hrow => ?_⟩
      exact throughLast?_eq_none hl row (by rw [hrows]; exact List.mem_append_right _ hrow)
  have hafter : after = below.flatten := by
    have ht : above.flatten ++ below.flatten = above.flatten ++ after := by
      rw [← List.flatten_append, ← hrows, Text.flatten_rows, ← hbefore]
      exact h
    exact (List.append_cancel_left ht).symm
  rw [importPaths, hafter, Text.rows_of_append hrows, List.filterMap_eq_nil_iff]
  intro row hrow
  simpa using hnone row hrow

/-! ## The rows of the new text -/

theorem exists_lineEnd (t : Text) : ∃ s, lineEnd t = s ++ ['\n'] ∧ ∀ c ∈ s, c = '\r' := by
  unfold lineEnd
  split
  · exact ⟨['\r'], rfl, by simp⟩
  · exact ⟨[], rfl, by simp⟩

theorem bareRows_lineEnd (t : Text) : Text.bareRows (lineEnd t) = [[]] := by
  unfold lineEnd
  split <;> rfl

theorem getLast?_lineEnd (t : Text) : ∀ c ∈ (lineEnd t).getLast?, c = '\n' := by
  obtain ⟨s, hs, -⟩ := exists_lineEnd t
  rw [hs, List.getLast?_concat]
  exact fun c hc => (Option.some.inj hc).symm

theorem newline_not_mem_importStatement {q : QualifiedName} (hq : Text.isDotted q.text = true) :
    '\n' ∉ importStatement q := by
  unfold importStatement
  rw [List.mem_append, List.mem_append]
  rintro ((h | h) | h)
  · exact absurd h (by decide)
  · exact Text.not_mem_of_isDotted hq (by simp) h
  · exact absurd h (by decide)

theorem chomp_importStatement (q : QualifiedName) :
    Text.chomp (importStatement q) = importStatement q := by
  refine Text.dropEndWhile_eq_self fun c hc => ?_
  unfold importStatement at hc
  rw [List.getLast?_append] at hc
  obtain rfl : ';' = c := Option.some.inj hc
  decide

theorem bareRows_row {q : QualifiedName} (hq : Text.isDotted q.text = true) (t : Text) :
    Text.bareRows (importStatement q ++ lineEnd t) = [importStatement q] := by
  obtain ⟨s, hs, hcr⟩ := exists_lineEnd t
  have hn : '\n' ∉ importStatement q ++ s := by
    rw [List.mem_append]
    rintro (h | h)
    · exact newline_not_mem_importStatement hq h
    · exact absurd (hcr _ h) (by decide)
  have hends : ∀ c ∈ s ++ ['\n'], c = '\r' ∨ c = '\n' := by
    intro c hc
    rw [List.mem_append, List.mem_singleton] at hc
    exact hc.imp_left (hcr c)
  rw [hs, Text.bareRows, ← List.append_assoc, Text.rows_line hn, List.map_singleton,
    List.append_assoc, Text.chomp_append hends, chomp_importStatement]

/-- The edit puts whole rows between the texts `above` and `below`, that is between two rows of `t` or
behind its last one, and changes nothing else: `new` are the rows between the old ones. -/
structure PutsRows (e : Edit) (t r above below : Text) (new : List Text) : Prop where
  text_eq : t = above ++ below
  boundary : below = [] ∨ ∀ c ∈ above.getLast?, c = '\n'
  span : e.span = .point (Text.bytes above)
  whole : e.text.getLast? = some '\n'
  result : r = above ++ e.text ++ below
  rows_text : Text.bareRows t = Text.bareRows above ++ Text.bareRows below
  rows_result : Text.bareRows r = Text.bareRows above ++ new ++ Text.bareRows below

section

variable (t : Text) (p : Bool)

/-- A line end that may be left out. -/
def lineEndIf : Text := if p then lineEnd t else []

theorem bareRows_lineEndIf : Text.bareRows (lineEndIf t p) = List.replicate p.toNat [] := by
  cases p with
  | false => rfl
  | true => exact bareRows_lineEnd t

theorem getLast?_lineEndIf : ∀ c ∈ (lineEndIf t p).getLast?, c = '\n' := by
  cases p with
  | false => simp [lineEndIf]
  | true => exact getLast?_lineEnd t

end

/-- The line end that completes the row before an import. -/
theorem bareRows_completed (t b : Text) :
    Text.bareRows (b ++ lineEndIf t (!b.isEmpty && !Text.endsWith b ['\n'])) = Text.bareRows b ∧
      ∀ c ∈ (b ++ lineEndIf t (!b.isEmpty && !Text.endsWith b ['\n'])).getLast?, c = '\n' := by
  by_cases hb : b = []
  · subst hb
    exact ⟨rfl, by simp [lineEndIf]⟩
  have hempty : b.isEmpty = false := by simpa using hb
  by_cases hn : '\n' ∈ b.getLast?
  · have hnone : lineEndIf t (!false && !true) = [] := rfl
    rw [hempty, Text.endsWith_newline_iff.2 hn, hnone, List.append_nil]
    exact ⟨rfl, fun c hc => Option.some.inj (hc.symm.trans hn)⟩
  · have hends : Text.endsWith b ['\n'] = false := by
      rw [Bool.eq_false_iff]
      exact mt Text.endsWith_newline_iff.1 hn
    obtain ⟨s, hs, hcr⟩ := exists_lineEnd t
    simp only [hempty, hends, Bool.not_false, Bool.and_self, lineEndIf, if_true]
    rw [hs]
    refine ⟨Text.bareRows_complete hb hn hcr, ?_⟩
    rw [← List.append_assoc, List.getLast?_concat]
    exact fun c hc => (Option.some.inj hc).symm

theorem getLast?_append_lineEnd (a t : Text) : (a ++ lineEnd t).getLast? = some '\n' := by
  obtain ⟨s, hs, -⟩ := exists_lineEnd t
  rw [hs, ← List.append_assoc, List.getLast?_concat]

/-- The text of an import: its row, and line ends before and behind it. -/
theorem importText_parts (q : QualifiedName) (place : ImportPlace) (t : Text) :
    ∃ m n : Bool, importText q place t =
      lineEndIf t (!place.before.isEmpty && !Text.endsWith place.before ['\n']) ++
        (lineEndIf t m ++ (importStatement q ++ lineEnd t ++ lineEndIf t n)) := by
  refine ⟨place.apart && !Text.endsWith place.before (lineEnd t ++ lineEnd t),
    place.before.isEmpty && !t.isEmpty, ?_⟩
  unfold importText importLead importStatement lineEndIf
  simp only [List.append_assoc]

/-- **The rows of a text with an import put in**: one row for the import, and an empty row before or
behind it where it is to stand apart. -/
theorem putsRows_importText {q : QualifiedName} {t after : Text}
    (hq : Text.isDotted q.text = true) (ht : t = (importPlace t).before ++ after)
    (hafter : after = [] ∨ ∀ c ∈ (importPlace t).before.getLast?, c = '\n') :
    ∃ m n : Bool, PutsRows
      (.insert (Text.bytes (importPlace t).before) (importText q (importPlace t) t)) t
      ((importPlace t).before ++ importText q (importPlace t) t ++ after) (importPlace t).before after
      (List.replicate m.toNat [] ++ [importStatement q] ++ List.replicate n.toNat []) := by
  obtain ⟨m, n, htext⟩ := importText_parts q (importPlace t) t
  obtain ⟨hgap, hgapEnd⟩ := bareRows_completed t (importPlace t).before
  generalize importText q (importPlace t) t = text at *
  generalize (importPlace t).before = b at *
  have hrowEnd : ∀ c ∈ (importStatement q ++ lineEnd t).getLast?, c = '\n' := by
    rw [getLast?_append_lineEnd]
    exact fun c hc => (Option.some.inj hc).symm
  have hrow : Text.bareRows (importStatement q ++ lineEnd t ++ (lineEndIf t n ++ after)) =
      [importStatement q] ++ (List.replicate n.toNat [] ++ Text.bareRows after) := by
    rw [Text.bareRows_append hrowEnd, bareRows_row hq,
      Text.bareRows_append (getLast?_lineEndIf t n), bareRows_lineEndIf]
  refine ⟨m, n, ht, hafter, rfl, ?_, rfl, ?_, ?_⟩
  · show text.getLast? = some '\n'
    rw [htext]
    cases n with
    | false =>
      have hnone : lineEndIf t false = [] := rfl
      rw [hnone, List.append_nil, ← List.append_assoc, ← List.append_assoc, getLast?_append_lineEnd]
    | true =>
      rw [← List.append_assoc, ← List.append_assoc]
      exact getLast?_append_lineEnd _ t
  · rcases hafter with rfl | hafter
    · rw [ht, List.append_nil]
      exact (List.append_nil _).symm
    · rw [← Text.bareRows_append hafter, ← ht]
  · show Text.bareRows (b ++ text ++ after) = _
    rw [htext, ← List.append_assoc, List.append_assoc (b ++ _), List.append_assoc (lineEndIf t m),
      List.append_assoc (importStatement q ++ lineEnd t), Text.bareRows_append hgapEnd, hgap,
      Text.bareRows_append (getLast?_lineEndIf t m), bareRows_lineEndIf, hrow]
    simp only [List.append_assoc]

theorem eq_of_importEdit? {q : QualifiedName} {t : Text} {e : Edit} (he : importEdit? q t = some e) :
    e = .insert (Text.bytes (importPlace t).before) (importText q (importPlace t) t) := by
  unfold importEdit? at he
  split at he
  · cases he
  · exact (Option.some.inj he).symm

/-- An import edit applies, puts in the row of the import, and this is read as the last import. -/
theorem exists_of_importEdit? {q : QualifiedName} {t : Text} {e : Edit}
    (hq : Text.isDotted q.text = true) (he : importEdit? q t = some e) :
    ∃ (r above below : Text) (m n : Bool), e.apply t = .ok r ∧
      PutsRows e t r above below
        (List.replicate m.toNat [] ++ [importStatement q] ++ List.replicate n.toNat []) ∧
      importPaths r = importPaths t ++ [q.text] := by
  obtain rfl := eq_of_importEdit? he
  obtain ⟨after, ht, hafter⟩ := exists_after_importPlace t
  obtain ⟨m, n, h⟩ := putsRows_importText hq ht hafter
  refine ⟨_, _, after, m, n, Edit.apply_eq_ok_iff.2 ⟨_, after, _, after, ht, rfl, ht, rfl, rfl⟩, h, ?_⟩
  have hblank : ∀ m : Bool, (List.replicate m.toNat []).filterMap importPath? = [] := by decide
  have hbelow := importPaths_below ht
  rw [importPaths_eq] at hbelow
  have hrows := h.rows_result
  rw [importPaths_eq, importPaths_eq, h.rows_text]
  show (Text.bareRows ((importPlace t).before ++ importText q (importPlace t) t ++ after)).filterMap
    importPath? = _
  rw [hrows]
  simp only [List.filterMap_append, hblank, hbelow, List.filterMap_cons,
    importPath?_importStatement hq, List.filterMap_nil, List.append_nil, List.nil_append]

/-! ## Several imports -/

/-- The text with an import added where it is missing. -/
def addImport (t : Text) (q : QualifiedName) : Except EditError Text :=
  match importEdit? q t with
  | none => .ok t
  | some e => e.apply t

/-- The text with imports added one after another. -/
def addImports (t : Text) (qs : List QualifiedName) : Except EditError Text := qs.foldlM addImport t

theorem isSome_importEdit? (q : QualifiedName) (t : Text) :
    (importEdit? q t).isSome = !(importPaths t).any (covers · q.text) := by
  unfold importEdit?
  split
  · rename_i h; rw [h]; rfl
  · rename_i h; rw [Bool.eq_false_iff.2 h]; rfl

/-- An added import is missing no more; whether others are missing does not change. -/
theorem isSome_importEdit?_of_added {q p : QualifiedName} {t r : Text}
    (hq : Text.isDotted q.text = true) (h : importPaths r = importPaths t ++ [q.text]) :
    (importEdit? p r).isSome = ((importEdit? p t).isSome && !p.text == q.text) := by
  have hone : covers q.text p.text = (p.text == q.text) := by
    rw [Bool.eq_iff_iff, covers_of_isDotted hq, beq_iff_eq]
    exact eq_comm
  rw [isSome_importEdit?, isSome_importEdit?, h, List.any_append, Bool.not_or, List.any_cons, hone,
    List.any_nil, Bool.or_false]

/-- **Imports added one after another**: those that are missing are appended, each once, in order. -/
theorem exists_addImports {qs : List QualifiedName} (t : Text)
    (hqs : ∀ q ∈ qs, Text.isDotted q.text = true) : ∃ r, addImports t qs = .ok r ∧
      importPaths r = importPaths t ++
        ((qs.filter fun q => (importEdit? q t).isSome).map (·.text)).eraseDups := by
  induction qs generalizing t with
  | nil => exact ⟨t, rfl, (List.append_nil _).symm⟩
  | cons q qs ih =>
    obtain ⟨hq, hqs⟩ := List.forall_mem_cons.1 hqs
    have hstep : addImports t (q :: qs) = addImport t q >>= fun t => addImports t qs := rfl
    cases he : importEdit? q t with
    | none =>
      have hadd : addImport t q = .ok t := by rw [addImport, he]
      obtain ⟨r, hr, hpaths⟩ := ih t hqs
      refine ⟨r, by rw [hstep, hadd]; exact hr, ?_⟩
      rw [hpaths, List.filter_cons_of_neg (by simp [he])]
    | some e =>
      obtain ⟨u, -, -, -, -, hu, -, hadded⟩ := exists_of_importEdit? hq he
      have hadd : addImport t q = .ok u := by rw [addImport, he]; exact hu
      obtain ⟨r, hr, hpaths⟩ := ih u hqs
      refine ⟨r, by rw [hstep, hadd]; exact hr, ?_⟩
      have hmissing : (qs.filter fun p => (importEdit? p u).isSome).map (·.text) =
          ((qs.filter fun p => (importEdit? p t).isSome).map (·.text)).filter (!· == q.text) := by
        rw [List.filter_map, List.filter_filter]
        congr 2
        funext p
        rw [isSome_importEdit?_of_added hq hadded, Bool.and_comm]
        rfl
      rw [hpaths, hadded, List.filter_cons_of_pos (by simp [he]), List.map_cons,
        List.eraseDups_cons, hmissing, List.append_assoc]
      rfl

theorem importEdit?_eq_none_of_mem {q : QualifiedName} {t : Text} (h : q.text ∈ importPaths t) :
    importEdit? q t = none :=
  importEdit?_eq_none_iff.2 ⟨_, h, covers_iff.2 (.inl rfl)⟩

end Source

open Source

/-- **Main theorem.** A class has no import edit exactly if a line imports it or all of its package.
Otherwise the edit puts in one row for it, which is read back as the last import, so that a second
edit is not needed; and after any number of imports, none is missing and each was added once. -/
theorem importEdit?_read_back (t : Text) :
    (∀ x q, QualifiedName.parse? x = some q →
      (importEdit? q t = none ↔ q.text ∈ importPaths t ∨
        ∃ p, q.package? = some p ∧ p.text ++ (".*" : Text) ∈ importPaths t) ∧
      ∀ e, importEdit? q t = some e → ∃ (r above below : Text) (m n : Bool), e.apply t = .ok r ∧
        PutsRows e t r above below
          (List.replicate m.toNat [] ++ [importStatement q] ++ List.replicate n.toNat []) ∧
        importPaths r = importPaths t ++ [q.text] ∧ importEdit? q r = none) ∧
    ∀ qs : List QualifiedName, (∀ q ∈ qs, ∃ x, QualifiedName.parse? x = some q) →
      ∃ r, addImports t qs = .ok r ∧ (∀ q ∈ qs, importEdit? q r = none) ∧
        importPaths r = importPaths t ++
          ((qs.filter fun q => (importEdit? q t).isSome).map (·.text)).eraseDups := by
  refine ⟨fun x q hq => ⟨?_, fun e he => ?_⟩, fun qs hqs => ?_⟩
  · rw [importEdit?_eq_none_iff]
    constructor
    · rintro ⟨path, hmem, h⟩
      rcases covers_iff.1 h with rfl | ⟨p, hp, rfl⟩
      · exact .inl hmem
      · exact .inr ⟨p, hp, hmem⟩
    · rintro (hmem | ⟨p, hp, hmem⟩)
      · exact ⟨_, hmem, covers_iff.2 (.inl rfl)⟩
      · exact ⟨_, hmem, covers_iff.2 (.inr ⟨p, hp, rfl⟩)⟩
  · obtain ⟨r, above, below, m, n, hr, hrows, hpaths⟩ :=
      exists_of_importEdit? (isDotted_of_parse? hq) he
    refine ⟨r, above, below, m, n, hr, hrows, hpaths, importEdit?_eq_none_of_mem ?_⟩
    rw [hpaths]
    exact List.mem_append_right _ List.mem_cons_self
  · have hdotted : ∀ q ∈ qs, Text.isDotted q.text = true := fun q hq =>
      (hqs q hq).elim fun x hx => isDotted_of_parse? hx
    obtain ⟨r, hr, hpaths⟩ := exists_addImports t hdotted
    refine ⟨r, hr, fun q hq => ?_, hpaths⟩
    cases he : importEdit? q t with
    | none =>
      obtain ⟨path, hmem, h⟩ := importEdit?_eq_none_iff.1 he
      refine importEdit?_eq_none_iff.2 ⟨path, ?_, h⟩
      rw [hpaths]
      exact List.mem_append_left _ hmem
    | some e =>
      refine importEdit?_eq_none_of_mem ?_
      rw [hpaths, List.mem_append, List.mem_eraseDups, List.mem_map]
      exact .inr ⟨q, List.mem_filter.2 ⟨hq, by rw [he]; rfl⟩, rfl⟩

/-- Of three imports the first is there and the last repeats the second, which has one row. -/
theorem importEdit?_read_back_twice :
    let t : Text := "package a;\nimport b.*;\n"
    let qs : List QualifiedName := [⟨"b.C"⟩, ⟨"b.c.D"⟩, ⟨"b.c.D"⟩]
    (∀ q ∈ qs, ∃ x, QualifiedName.parse? x = some q) ∧
      ∃ r, addImports t qs = .ok r ∧ importPaths r = [("b.*" : Text), "b.c.D"] := by
  intro t qs
  have hqs : ∀ q ∈ qs, ∃ x, QualifiedName.parse? x = some q := by
    have hall : ∀ q ∈ qs, QualifiedName.parse? q.text = some q := by decide +kernel
    exact fun q hq => ⟨_, hall q hq⟩
  obtain ⟨r, hr, -, hpaths⟩ := (importEdit?_read_back t).2 qs hqs
  refine ⟨hqs, r, hr, hpaths.trans ?_⟩
  decide +kernel

end QuickFix
