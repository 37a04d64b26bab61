import QuickFix.Source.Import
import QuickFix.Proofs.Source.Inserting

/-!
# The tokens of a new import

Where an import goes is found line by line, not by tokens. `importEdit?_tokens_iff` says when this
comes to the same: the edit puts in the tokens of the import and leaves all others exactly if the text
before it does not end in an open block comment, and not with a literal that goes on behind the place
or into the new text (`Piece.Lets`).
-/

namespace QuickFix

namespace Text

/-! ## Rows -/

/-- Every row but the last ends with a line feed. -/
theorem getLast?_of_rows {t : Text} {above below : List Text} (h : rows t = above ++ below)
    (hb : below ≠ []) : ∀ row ∈ above, row.getLast? = some '\n' := by
  induction t generalizing above with
  | nil =>
    obtain ⟨rfl, -⟩ := List.append_eq_nil_iff.1 h.symm
    intro row hrow
    cases hrow
  | cons c t ih =>
    cases above with
    | nil => intro row hrow; cases hrow
    | cons first above =>
      simp only [rows] at h
      split at h
      · rename_i hc
        obtain ⟨rfl, h'⟩ := List.cons.inj h
        exact List.forall_mem_cons.2 ⟨by simp [hc], ih h'⟩
      · split at h
        · obtain ⟨-, h⟩ := List.cons.inj h
          exact absurd (List.append_eq_nil_iff.1 h.symm).2 hb
        · rename_i p ps hp
          obtain ⟨rfl, rfl⟩ := List.cons.inj h
          have hp' : rows t = (p :: above) ++ below := hp
          have hall := List.forall_mem_cons.1 (ih hp')
          refine List.forall_mem_cons.2 ⟨?_, hall.2⟩
          rw [List.getLast?_cons, hall.1]
          rfl

/-! ## Dotted names -/

/-- The first of the pieces between separators. -/
theorem splitOn_cases (sep : Char) (t : Text) :
    t.splitOn sep = [t] ∨ ∃ a b, t = a ++ sep :: b ∧ t.splitOn sep = a :: b.splitOn sep := by
  by_cases h : sep ∈ t
  · obtain ⟨a, b, rfl, ha⟩ := List.eq_append_cons_of_mem h
    exact .inr ⟨a, b, rfl, List.splitOn_append_cons_self_of_not_mem ha b⟩
  · exact .inl (List.splitOn_eq_singleton h)

/-- A dotted name is an identifier, or one before a dot and a dotted name. -/
theorem isDotted_cases {t : Text} (h : isDotted t = true) :
    isIdentifier t = true ∨
      ∃ a b, t = a ++ '.' :: b ∧ isIdentifier a = true ∧ isDotted b = true := by
  unfold isDotted at h
  rcases splitOn_cases '.' t with hs | ⟨a, b, ht, hs⟩
  · rw [hs] at h
    exact .inl (by simpa using h)
  · rw [hs, List.all_cons, Bool.and_eq_true] at h
    exact .inr ⟨a, b, ht, h⟩

/-- Induction along a dotted name. -/
theorem isDotted_induction {motive : Text → Prop} {t : Text} (h : isDotted t = true)
    (single : ∀ a, isIdentifier a = true → motive a)
    (dot : ∀ a b, isIdentifier a = true → isDotted b = true → motive b →
      motive (a ++ '.' :: b)) : motive t := by
  generalize hn : t.length = n
  induction n using Nat.strongRecOn generalizing t with
  | ind n ih =>
    rcases isDotted_cases h with ha | ⟨a, b, rfl, ha, hb⟩
    · exact single t ha
    · have hlt : b.length < n := by rw [← hn]; simp; omega
      exact dot a b ha hb (ih _ hlt hb rfl)

theorem dot_not_mem_of_isIdentifier {w : Text} (h : isIdentifier w = true) : '.' ∉ w :=
  Source.not_mem_of_isIdentifier h (by decide)

theorem isDotted_chars {t : Text} (h : isDotted t = true) :
    ∀ c ∈ t, c = '.' ∨ isIdentContinue c = true := by
  have word : ∀ a, isIdentifier a = true → ∀ c ∈ a, isIdentContinue c = true := by
    intro a ha c hc
    obtain ⟨d, u, rfl, hd, hu⟩ := Source.exists_of_isIdentifier ha
    rcases List.mem_cons.1 hc with rfl | hc
    · exact isIdentContinue_of_isIdentStart hd
    · exact hu c hc
  refine isDotted_induction (motive := fun t => ∀ c ∈ t, c = '.' ∨ isIdentContinue c = true) h
    (fun a ha c hc => .inr (word a ha c hc)) fun a b ha _ ih c hc => ?_
  rcases List.mem_append.1 hc with hc | hc
  · exact .inr (word a ha c hc)
  · exact (List.mem_cons.1 hc).elim .inl (ih c)

end Text

namespace Source

theorem pieces_word {a : Text} (h : Text.isIdentifier a = true) : pieces a = [⟨.token .word, a⟩] := by
  have hpieces := ((word_endsBefore_iff (b := [])).2 ⟨h, fun y hy => by cases hy⟩).pieces_eq
  rwa [List.append_nil, pieces] at hpieces

theorem pieces_word_dot {a : Text} (h : Text.isIdentifier a = true) (b : Text) :
    pieces (a ++ '.' :: b) = ⟨.token .word, a⟩ :: ⟨.token .dot, ['.']⟩ :: pieces b := by
  have hword : Piece.EndsBefore ⟨.token .word, a⟩ ('.' :: b) := by
    refine word_endsBefore_iff.2 ⟨h, fun y hy => ?_⟩
    obtain rfl : '.' = y := Option.some.inj hy
    decide
  rw [hword.pieces_eq, pieces, firstPiece_punctuation rfl]

/-- A dotted name is cut on its own before a character that does not go on it. -/
theorem pieces_dotted {t b : Text} (h : Text.isDotted t = true)
    (hb : ∀ y ∈ b.head?, Text.isIdentContinue y = false) :
    pieces (t ++ b) = pieces t ++ pieces b := by
  refine Text.isDotted_induction (motive := fun t => pieces (t ++ b) = pieces t ++ pieces b) h
    (fun a ha => ?_) fun a u ha hu ih => ?_
  · rw [pieces_word ha, (word_endsBefore_iff.2 ⟨ha, hb⟩).pieces_eq]
    rfl
  · rw [List.append_assoc, List.cons_append, pieces_word_dot ha, pieces_word_dot ha, ih]
    rfl

/-! ## The place of an import -/

theorem throughFirst?_eq {p : Text → Bool} {rs a b : List Text}
    (h : throughFirst? p rs = some (a, b)) : rs = a ++ b := by
  induction rs generalizing a with
  | nil => cases h
  | cons r rs ih =>
    simp only [throughFirst?] at h
    split at h
    · cases h; rfl
    · obtain ⟨⟨a', b'⟩, h', he⟩ := Option.map_eq_some_iff.1 h
      cases he
      rw [ih h']
      rfl

theorem throughLast?_eq {p : Text → Bool} {rs a b : List Text}
    (h : throughLast? p rs = some (a, b)) : rs = a ++ b := by
  obtain ⟨⟨c, d⟩, h', he⟩ := Option.map_eq_some_iff.1 h
  have hrs := congrArg List.reverse (throughFirst?_eq h')
  rw [List.reverse_reverse, List.reverse_append] at hrs
  obtain ⟨rfl, rfl⟩ := Prod.mk.inj he
  rw [hrs, List.append_assoc]
  congr 1
  cases hc : c.getLast? with
  | none => rw [List.getLast?_eq_none_iff.1 hc]; rfl
  | some r =>
    obtain ⟨c', rfl⟩ := List.getLast?_eq_some_iff.1 hc
    simp

/-- The text before an import is made of rows. -/
theorem importPlace_rows (t : Text) : ∃ above below, Text.rows t = above ++ below ∧
    (importPlace t).before = above.flatten := by
  unfold importPlace
  simp only
  split
  · rename_i above below h
    exact ⟨above, below, throughLast?_eq h, rfl⟩
  · split
    · rename_i above row rest h
      by_cases hb : isBlankRow row = true
      · refine ⟨above ++ [row], rest, by rw [throughFirst?_eq h]; simp, by simp [hb]⟩
      · exact ⟨above, row :: rest, throughFirst?_eq h, by simp [hb]⟩
    · rename_i above h
      exact ⟨above, [], throughFirst?_eq h, rfl⟩
    · exact ⟨[], _, rfl, rfl⟩

/-- What comes after the place of an import; it is empty if the line before it has no line feed. -/
theorem exists_after_importPlace (t : Text) : ∃ after, t = (importPlace t).before ++ after ∧
    (after = [] ∨ ∀ c ∈ (importPlace t).before.getLast?, c = '\n') := by
  obtain ⟨above, below, hrows, hbefore⟩ := importPlace_rows t
  refine ⟨below.flatten, by rw [hbefore, ← List.flatten_append, ← hrows, Text.flatten_rows], ?_⟩
  cases below with
  | nil => exact .inl rfl
  | cons r below =>
    refine .inr fun c hc => ?_
    have hall := Text.getLast?_of_rows hrows (List.cons_ne_nil r below)
    rcases List.eq_nil_or_concat above with rfl | ⟨above', row, rfl⟩
    · rw [hbefore] at hc; cases hc
    · have hlast := hall row (by simp)
      rw [hbefore, List.concat_eq_append, List.flatten_append, List.flatten_singleton,
        List.getLast?_append, hlast] at hc
      exact (Option.some.inj hc).symm

/-! ## The new text -/

/-- The import statement of a class. -/
def importStatement (q : QualifiedName) : Text := "import " ++ q.text ++ ";"

theorem lineEnd_lineEnds (t : Text) : LineEnds (lineEnd t) := by
  unfold lineEnd
  split
  · simp [LineEnds]
  · simp [LineEnds]

theorem lineEnd_ne_nil (t : Text) : lineEnd t ≠ [] := by
  unfold lineEnd
  split <;> simp

/-- An import is a statement between line ends. -/
theorem importText_eq (q : QualifiedName) (place : ImportPlace) (t : Text) :
    ∃ tail, importText q place t =
        importLead (lineEnd t) place ++ (importStatement q ++ tail) ∧
      tail ≠ [] ∧ LineEnds (importLead (lineEnd t) place) ∧ LineEnds tail := by
  have hl := lineEnd_lineEnds t
  have hlead : LineEnds (importLead (lineEnd t) place) := (hl.ite _).append (hl.ite _)
  have assoc : ∀ a b c d e f : Text, a ++ b ++ c ++ d ++ e ++ f = a ++ (b ++ c ++ d ++ (e ++ f)) := by
    intro a b c d e f
    simp only [List.append_assoc]
  refine ⟨lineEnd t ++ if place.before.isEmpty && !t.isEmpty then lineEnd t else [], ?_, ?_,
    hlead, hl.append (hl.ite _)⟩
  · unfold importText importStatement
    exact assoc ..
  · exact fun h => lineEnd_ne_nil t (List.append_eq_nil_iff.1 h).1

theorem lineEnd_startsLine (t : Text) : StartsLine (lineEnd t) := by
  unfold lineEnd
  split
  · exact ⟨['\r'], [], rfl, by simp⟩
  · exact ⟨[], [], rfl, by simp⟩

/-- A line end comes first where the line before the import has none. -/
theorem importLead_startsLine (t : Text) {place : ImportPlace} {c : Char}
    (hc : c ∈ place.before.getLast?) (hn : c ≠ '\n') :
    StartsLine (importLead (lineEnd t) place) := by
  obtain ⟨b, hb⟩ := List.getLast?_eq_some_iff.1 hc
  have hends : Text.endsWith place.before ['\n'] = false := by
    rw [hb]
    simp [Text.endsWith, Text.startsWith, Text.after?, hn.symm]
  have hempty : place.before.isEmpty = false := by rw [hb]; simp
  obtain ⟨v, hv⟩ : ∃ v, importLead (lineEnd t) place = lineEnd t ++ v := by
    simp only [importLead, hends, hempty, Bool.not_false, Bool.and_self, if_true]
    exact ⟨_, rfl⟩
  rw [hv]
  exact (lineEnd_startsLine t).append v

/-- The pieces of an import statement, cut on their own. -/
theorem pieces_importStatement {q : QualifiedName} (hq : Text.isDotted q.text = true) (b : Text) :
    pieces (importStatement q ++ b) = ⟨.token .word, "import"⟩ :: ⟨.blank, [' ']⟩ ::
      (pieces q.text ++ ⟨.token .semicolon, [';']⟩ :: pieces b) := by
  have hname : pieces (q.text ++ ';' :: b) = pieces q.text ++ pieces (';' :: b) := by
    refine pieces_dotted hq fun y hy => ?_
    obtain rfl : ';' = y := Option.some.inj hy
    decide
  have hsemicolon : pieces (';' :: b) = ⟨.token .semicolon, [';']⟩ :: pieces b := by
    rw [pieces, firstPiece_punctuation rfl]
  have hs : importStatement q ++ b = ("import" : Text) ++ ' ' :: (q.text ++ ';' :: b) := by
    unfold importStatement
    rw [List.append_assoc, List.append_assoc]
    rfl
  rw [hs, pieces_word_space (by decide), hname, hsemicolon]

theorem pieces_importStatement_append {q : QualifiedName} (hq : Text.isDotted q.text = true)
    (b : Text) : pieces (importStatement q ++ b) = pieces (importStatement q) ++ pieces b := by
  have hnil := pieces_importStatement hq []
  rw [List.append_nil, pieces] at hnil
  rw [pieces_importStatement hq, hnil]
  simp

/-- The text of an import is cut from what follows. -/
theorem pieces_importText_append {q : QualifiedName} (hq : Text.isDotted q.text = true)
    (place : ImportPlace) (t b : Text) :
    pieces (importText q place t ++ b) = pieces (importText q place t) ++ pieces b := by
  obtain ⟨tail, he, -, hlead, htail⟩ := importText_eq q place t
  rw [he, List.append_assoc, List.append_assoc, hlead.pieces_append, hlead.pieces_append,
    pieces_importStatement_append hq, pieces_importStatement_append hq, htail.pieces_append]
  simp only [List.append_assoc]

/-- The tokens of the text of an import. -/
theorem tokens_importText {q : QualifiedName} (hq : Text.isDotted q.text = true)
    (place : ImportPlace) (t : Text) :
    tokens (importText q place t) = (tokens (importStatement q)).map
      (Token.shift (Text.bytes (importLead (lineEnd t) place))) := by
  obtain ⟨tail, he, -, hlead, htail⟩ := importText_eq q place t
  rw [he, tokens_append (hlead.pieces_append _), tokens_append (pieces_importStatement_append hq _),
    hlead.tokens_eq, htail.tokens_eq, List.map_nil, List.append_nil, List.nil_append]

/-! ## The import put in -/

/-- No slash stands in the text of an import. -/
theorem slash_not_mem_importText {q : QualifiedName} (hq : Text.isDotted q.text = true)
    (place : ImportPlace) (t : Text) : '/' ∉ importText q place t := by
  obtain ⟨tail, he, -, hlead, htail⟩ := importText_eq q place t
  have ends : ∀ {u : Text}, LineEnds u → '/' ∉ u := fun hu hm => by
    rcases hu _ hm with h | h <;> cases h
  have hname : '/' ∉ q.text := fun hm => by
    rcases Text.isDotted_chars hq _ hm with h | h
    · cases h
    · exact absurd h (by decide)
  have hstatement : '/' ∉ importStatement q := by
    unfold importStatement
    rw [List.mem_append, List.mem_append]
    rintro ((h | h) | h)
    · exact absurd h (by decide)
    · exact hname h
    · exact absurd h (by decide)
  rw [he, List.mem_append, List.mem_append]
  rintro (h | h | h)
  · exact ends hlead h
  · exact hstatement h
  · exact ends htail h

theorem tokens_importText_ne_nil {q : QualifiedName} (hq : Text.isDotted q.text = true)
    (place : ImportPlace) (t : Text) : tokens (importText q place t) ≠ [] := by
  have hpieces := pieces_importStatement hq []
  rw [List.append_nil] at hpieces
  rw [tokens_importText hq, tokens, hpieces, Source.place, List.map_cons]
  exact List.cons_ne_nil _ _

theorem isDotted_of_parse? {x : Text} {q : QualifiedName}
    (h : QualifiedName.parse? x = some q) : Text.isDotted q.text = true := by
  unfold QualifiedName.parse? at h
  simp only at h
  split at h
  · rename_i hd
    obtain rfl := Option.some.inj h
    exact hd
  · cases h

/-- The text of an import at its place. -/
theorem putsIn_importText_iff {q : QualifiedName} {t after : Text}
    (hq : Text.isDotted q.text = true) (ht : t = (importPlace t).before ++ after)
    (hafter : after = [] ∨ ∀ c ∈ (importPlace t).before.getLast?, c = '\n') :
    PutsIn ((tokens (importStatement q)).map (Token.shift (Text.bytes (importPlace t).before +
          Text.bytes (importLead (lineEnd t) (importPlace t)))))
        (Text.bytes (importPlace t).before) (Text.bytes (importText q (importPlace t) t)) t
        ((importPlace t).before ++ importText q (importPlace t) t ++ after) ↔
      ∀ p ∈ (pieces (importPlace t).before).getLast?,
        p.Lets (importText q (importPlace t) t) after := by
  have hks : (tokens (importStatement q)).map (Token.shift (Text.bytes (importPlace t).before +
        Text.bytes (importLead (lineEnd t) (importPlace t)))) =
      (tokens (importText q (importPlace t) t)).map
        (Token.shift (Text.bytes (importPlace t).before)) := by
    rw [tokens_importText hq, map_shift_map_shift]
  have hne := tokens_importText_ne_nil hq (importPlace t) t
  have hslash := slash_not_mem_importText hq (importPlace t) t
  have hcut := pieces_importText_append hq (importPlace t) t after
  have hstarts : ∀ c ∈ (importPlace t).before.getLast?, c ≠ '\n' →
      StartsLine (importText q (importPlace t) t) := by
    intro c hc hn
    obtain ⟨tail, htext, -⟩ := importText_eq q (importPlace t) t
    rw [htext]
    exact (importLead_startsLine t hc hn).append _
  rw [hks]
  generalize importText q (importPlace t) t = new at *
  generalize (importPlace t).before = before at *
  rw [ht]
  exact ⟨fun h p hp => lets_of_putsIn hne hslash h hp, putsIn_of_lets hne hcut hafter hstarts⟩

end Source

open Source

/-- **Main theorem.** An import edit applies. It puts in the tokens of the import and leaves all
others, exactly if the last piece before its place keeps to itself. -/
theorem importEdit?_tokens_iff {q : QualifiedName} {x t : Text} {e : Edit}
    (hq : QualifiedName.parse? x = some q) (he : importEdit? q t = some e) :
    ∃ after, t = (importPlace t).before ++ after ∧
      e.apply t = .ok ((importPlace t).before ++ e.text ++ after) ∧
      (PutsIn ((tokens (importStatement q)).map (Token.shift (e.span.start +
            Text.bytes (importLead (lineEnd t) (importPlace t)))))
          e.span.start (Text.bytes e.text) t ((importPlace t).before ++ e.text ++ after) ↔
        ∀ p ∈ (pieces (importPlace t).before).getLast?, p.Lets e.text after) := by
  obtain rfl :
      Edit.insert (Text.bytes (importPlace t).before) (importText q (importPlace t) t) = e := by
    unfold importEdit? at he
    split at he
    · cases he
    · exact Option.some.inj he
  obtain ⟨after, ht, hafter⟩ := exists_after_importPlace t
  refine ⟨after, ht, ?_, putsIn_importText_iff (isDotted_of_parse? hq) ht hafter⟩
  exact Edit.apply_eq_ok_iff.2 ⟨_, after, _, after, ht, rfl, ht, rfl, rfl⟩

/-- The last piece before the new import is a line feed, which keeps to itself. -/
theorem importEdit?_tokens_iff_line :
    let t : Text := "import a.B;\nclass A {}"
    let e := Edit.insert 12 "import x.Y;\n"
    QualifiedName.parse? "x.Y" = some ⟨"x.Y"⟩ ∧ importEdit? ⟨"x.Y"⟩ t = some e ∧
      ∃ after, t = (importPlace t).before ++ after ∧
        e.apply t = .ok ((importPlace t).before ++ e.text ++ after) ∧
        PutsIn ((tokens (importStatement ⟨"x.Y"⟩)).map (Token.shift (12 +
            Text.bytes (importLead (lineEnd t) (importPlace t)))))
          12 (Text.bytes e.text) t ((importPlace t).before ++ e.text ++ after) := by
  intro t e
  have hq : QualifiedName.parse? "x.Y" = some ⟨"x.Y"⟩ := by decide +kernel
  have he : importEdit? ⟨"x.Y"⟩ t = some e := by decide +kernel
  have hlast : (pieces (importPlace t).before).getLast? = some ⟨.blank, ['\n']⟩ := by
    decide +kernel
  obtain ⟨after, ht, hr, hiff⟩ := importEdit?_tokens_iff hq he
  refine ⟨hq, he, after, ht, hr, hiff.2 fun p hp => ?_⟩
  rw [hlast] at hp
  obtain rfl := Option.some.inj hp
  exact ⟨by decide +kernel, fun h => by cases h⟩

/-- A line in a comment that reads like an import takes the new import into the comment. -/
theorem importEdit?_swallowed :
    let t : Text := "/*\nimport a.B;\n*/\nclass A {}"
    QualifiedName.parse? "x.Y" = some ⟨"x.Y"⟩ ∧
      ∃ e r, importEdit? ⟨"x.Y"⟩ t = some e ∧ e.apply t = .ok r ∧
        ∀ n m m', ¬ PutsIn ((tokens (importStatement ⟨"x.Y"⟩)).map (Token.shift m)) n m' t r := by
  intro t
  refine ⟨by decide +kernel, .insert 15 "import x.Y;\n",
    "/*\nimport a.B;\nimport x.Y;\n*/\nclass A {}", by decide +kernel, by rfl, ?_⟩
  rintro n m m' ⟨xs, ys, -, -, -, hr⟩
  have hnone : ∀ k ∈ tokens "/*\nimport a.B;\nimport x.Y;\n*/\nclass A {}", k.text ≠ "import" := by
    decide +kernel
  have hone : ⟨.word, 0, "import"⟩ ∈ tokens (importStatement ⟨"x.Y"⟩) := by decide +kernel
  refine hnone (Token.shift m ⟨.word, 0, "import"⟩) ?_ rfl
  rw [hr]
  exact List.mem_append_left _ (List.mem_append_right _ (List.mem_map_of_mem hone))

end QuickFix
