import QuickFix.Proofs.Source.ImportLines
import QuickFix.Proofs.Source.PackageStatement

/-!
# The package statement of a text with an import put in

The package statement is found by tokens and the place of an import by lines. They agree if the text
before the place has the statement; `importEdit?_package_iff` says what else it takes for the
statement to keep its name: no lone dot may wait behind the name for the word of the import, unless
the import goes into a comment. The proof is by the last piece of the text before the place: an open
comment (`tokens_open_append`), a literal (`tokens_literal_append`), or a piece that keeps to itself.
-/

namespace QuickFix

namespace Source

/-! ## Behind an open comment -/

/-- A comment that does not end with a star is closed by what follows alone. -/
theorem around?_append_of_none {body : Text} (b : Text)
    (h : Text.around? ['*', '/'] body = none) (hl : ∀ c ∈ body.getLast?, c ≠ '*') :
    Text.around? ['*', '/'] (body ++ b) =
      (Text.around? ['*', '/'] b).map fun s => (body ++ s.1, s.2) := by
  induction body with
  | nil =>
    rw [List.nil_append]
    cases Text.around? ['*', '/'] b <;> rfl
  | cons c body ih =>
    have hafter : Text.after? ['*', '/'] (c :: body) = none := by
      cases ha : Text.after? ['*', '/'] (c :: body) with
      | none => rfl
      | some r => rw [Text.around?_of_after? ha] at h; cases h
    rw [Text.around?_cons_of_none hafter, Option.map_eq_none_iff] at h
    have hafter' : Text.after? ['*', '/'] (c :: (body ++ b)) = none := by
      cases body with
      | nil =>
        have hc : '*' ≠ c := Ne.symm (hl c rfl)
        rw [Text.after?, if_neg hc]
      | cons d body =>
        rw [← List.append_nil (c :: d :: body)] at hafter
        exact Text.after?_append_eq_none b (Nat.le_add_left 2 _) hafter
    rw [List.cons_append, Text.around?_cons_of_none hafter', ih h, Option.map_map]
    · rfl
    · intro d hd
      by_cases hb : body = []
      · rw [hb] at hd
        cases hd
      · exact hl d (by rwa [Text.getLast?_of_ne_nil hb])

theorem through_append_of_none {body : Text} (b : Text)
    (h : Text.around? ['*', '/'] body = none) (hl : ∀ c ∈ body.getLast?, c ≠ '*') :
    through ['*', '/'] (body ++ b) =
      (body ++ (through ['*', '/'] b).1, (through ['*', '/'] b).2) := by
  unfold through
  rw [around?_append_of_none b h hl]
  cases Text.around? ['*', '/'] b with
  | none => rfl
  | some s => simp only [Option.map_some, List.append_assoc]

/-- The tokens of a text that goes on behind an open comment: those of what follows the comment. -/
theorem tokens_open_append {a : Text} {ps : List Piece} {p : Piece} (h : pieces a = ps ++ [p])
    (hopen : p.isOpenComment = true) (hl : a.getLast? = some '\n') (b : Text) :
    tokens (a ++ b) = tokens a ++ place (Text.bytes a + Text.bytes (through ['*', '/'] b).1)
      (pieces (through ['*', '/'] b).2) := by
  obtain ⟨body, rfl, hbody⟩ := exists_of_isOpenComment hopen
  have ha : a = ps.flatMap Piece.text ++ ('/' :: '*' :: body) := eq_append_of_last h
  have hnone : Text.around? ['*', '/'] body = none := by
    rw [← List.append_nil body]
    exact around?_append_eq_none hbody (by simp)
  have hstar : ∀ c ∈ body.getLast?, c ≠ '*' := by
    intro c hc
    obtain ⟨u, rfl⟩ := List.getLast?_eq_some_iff.1 hc
    rw [getLast?_of_last h, ← List.cons_append, ← List.cons_append, List.getLast?_concat] at hl
    rw [Option.some.inj hl]
    decide
  have hpiece : pieces ('/' :: '*' :: body ++ b) =
      ⟨.comment, '/' :: '*' :: (body ++ (through ['*', '/'] b).1)⟩ ::
        pieces (through ['*', '/'] b).2 := by
    rw [List.cons_append, List.cons_append, pieces, firstPiece_blockComment,
      through_append_of_none b hnone hstar]
  have htokens : tokens a = place 0 ps := by
    rw [tokens, h, place_append]
    exact List.append_nil _
  have happend := (pieces_append_of_last h b).1
  rw [htokens, tokens, happend, hpiece, place_append]
  refine congrArg (place 0 ps ++ ·) ?_
  show place (0 + Text.bytes (ps.flatMap Piece.text) +
    Text.bytes ('/' :: '*' :: (body ++ (through ['*', '/'] b).1))) _ = _
  rw [ha]
  simp only [Text.bytes_append, Text.bytes_cons, Nat.zero_add, Nat.add_assoc]

theorem isOpenComment_append {p : Piece} {new : Text} (h : p.isOpenComment = true)
    (hn : '/' ∉ new) : (⟨.comment, p.text ++ new⟩ : Piece).isOpenComment = true := by
  obtain ⟨body, rfl, hbody⟩ := exists_of_isOpenComment h
  show (!Text.contains (body ++ new) ['*', '/']) = true
  rw [Text.contains, around?_append_eq_none hbody hn]
  rfl

/-! ## Behind a literal -/

/-- The tokens of a text that goes on behind a literal: the literal, which may go on too, and others
behind it. -/
theorem tokens_literal_append {a : Text} {ps : List Piece} {p : Piece} (h : pieces a = ps ++ [p])
    (hp : p.kind = .token .literal) (z : Text) : ∃ k ys, tokens (a ++ z) = place 0 ps ++ k :: ys ∧
      k.kind = .literal ∧ ∀ l ∈ ys, Text.bytes a < l.stop := by
  obtain ⟨hz₁, q, qs, v, hq, hv, -⟩ := pieces_append_of_last h z
  obtain ⟨-, hends, -⟩ := pieces_cons hq
  obtain ⟨c, u, hc, hquote⟩ := quote_of_literal (pieces_cons (pieces_of_append h).2.1).2.1 hp
  have hkind : q.kind = .token .literal := literal_of_quote hends (by rw [hv, hc]; rfl) hquote
  have htokens : tokens (a ++ z) = place 0 ps ++
      ⟨.literal, Text.bytes (ps.flatMap Piece.text), q.text⟩ ::
        place (Text.bytes (ps.flatMap Piece.text) + Text.bytes q.text) qs := by
    rw [tokens, hz₁, hq, place_append, Nat.zero_add]
    simp only [place, hkind]
  refine ⟨_, _, htokens, rfl, lt_stop_of_tokens (htokens.trans (List.append_cons ..)) fun l hl => ?_⟩
  have hstart := (start_le_of_mem_place hl).1
  have ha := (bytes_of_last h).1
  rw [hv, Text.bytes_append] at hstart
  omega

/-! ## Behind any other piece -/

/-- A text is cut behind its last line, and at its end, unless that is in a comment or a literal. -/
theorem pieces_append_of_closed {a b : Text} (hb : b = [] ∨ ∀ c ∈ a.getLast?, c = '\n')
    (h : ∀ p ∈ (pieces a).getLast?, p.isOpenComment = false ∧ p.kind ≠ .token .literal) :
    pieces (a ++ b) = pieces a ++ pieces b := by
  refine pieces_append fun p hp => ?_
  obtain ⟨hopen, hliteral⟩ := h p hp
  obtain ⟨ps, hps⟩ := List.getLast?_eq_some_iff.1 hp
  have hend : p.EndsBefore [] := (pieces_cons (pieces_of_append hps).2.1).2.1
  have line (hn : ∀ c ∈ p.text.getLast?, c ≠ '\n') : p.EndsBefore b := by
    rcases hb with rfl | hb
    · exact hend
    · obtain ⟨c, hc⟩ := Option.isSome_iff_exists.1 (List.getLast?_isSome.2 hend.ne_nil)
      exact absurd (hb c (by rwa [getLast?_of_last hps])) (hn c hc)
  cases hend.lastPiece with
  | closed ends => exact ends b
  | openComment opens => rw [hopen] at opens; cases opens
  | literal kind => exact absurd kind hliteral
  | inLine noLine _ => exact line noLine
  | lineComment u eq _ noLine =>
    subst eq
    refine line fun c hc => ?_
    rcases List.mem_cons.1 (List.mem_of_getLast? hc) with rfl | hc
    · decide
    · exact noLine c hc

/-- Where the text is cut, the tokens before the place are those of its first part. -/
theorem PutsIn.split {ks : List Token} {a b r : Text} {m : Nat}
    (h : PutsIn ks (Text.bytes a) m (a ++ b) r) (hcut : pieces (a ++ b) = pieces a ++ pieces b) :
    ∃ ys, tokens (a ++ b) = tokens a ++ ys ∧ (∀ k ∈ ys, Text.bytes a ≤ k.start) ∧
      tokens r = tokens a ++ ks ++ ys.map (Token.shift m) := by
  obtain ⟨xs, ys, ht, hxs, hys, hr⟩ := h
  have hfilter := filter_tokens_of_pieces hcut
  rw [ht, filter_start_lt (start_lt_of_tokens ht hxs) hys] at hfilter
  subst hfilter
  exact ⟨ys, ht, hys, hr⟩

/-! ## The statement before the place -/

theorem packageOf?_stop_le {t : Text} {p : PackageStatement} (h : packageOf? t = some p) :
    p.span.stop ≤ Text.bytes t := by
  unfold packageOf? at h
  rw [← List.append_nil (tokens t)] at h
  obtain ⟨s⟩ := exists_stated h fun k hk => by cases hk
  have hlast := dottedName?_last s.named
  have hbody : ∀ k ∈ s.body ++ [], k.stop ≤ Text.bytes t := by
    intro k hk
    rw [List.append_nil] at hk
    refine stop_le_of_mem_tokens ?_
    rw [s.split]
    exact List.mem_append_right _ (List.mem_cons_of_mem _ hk)
  rw [s.span]
  rcases statementStop_cases s.last (s.rest ++ []) with hc | ⟨k, hk, -, hc⟩
  · rw [hc]
    exact hbody _ (hlast.subset List.mem_cons_self)
  · rw [hc]
    exact hbody _ (hlast.subset (List.mem_cons_of_mem _ (List.mem_of_mem_head? hk)))

/-- The tokens behind one of them start later. -/
theorem filter_tokens_behind {t : Text} {pre post : List Token} {w : Token}
    (h : tokens t = pre ++ w :: post) : (tokens t).filter (w.start < ·.start) = post := by
  obtain ⟨a, b, -, ha, hw, -, hb⟩ := exists_split_of_tokens h
  have hpos : w.start < w.stop := by
    refine start_lt_stop_of_mem_tokens (t := t) ?_
    rw [h]
    exact List.mem_append_right pre List.mem_cons_self
  have hpre : pre.filter (w.start < ·.start) = [] := by
    refine List.filter_eq_nil_iff.2 fun k hk => ?_
    rw [← ha] at hk
    have h₁ := stop_le_of_mem_tokens hk
    have h₂ := start_lt_stop_of_mem_tokens hk
    simp only [decide_eq_true_eq]
    omega
  have hpost : post.filter (w.start < ·.start) = post := by
    refine List.filter_eq_self.2 fun k hk => ?_
    rw [← hb] at hk
    have h₁ := (start_le_of_mem_place hk).1
    simp only [decide_eq_true_eq]
    omega
  rw [h, List.filter_append, hpre, List.filter_cons_of_neg (by simp), hpost, List.nil_append]

end Source

/-- Does a word that comes next behind the text go to the name of its package statement? -/
def PackageStatement.waitsIn (p : PackageStatement) (t : Text) : Bool :=
  Source.nameOpen ((Source.tokens t).filter (p.span.start < ·.start))

namespace Source

theorem Stated.waitsIn_eq {x y z : List Token} {a : Text} {p : PackageStatement}
    (s : Stated x y p) (ha : tokens a = x ++ z) : p.waitsIn a = nameOpen (s.body ++ z) := by
  have hsplit : tokens a = s.lead ++ s.word :: (s.body ++ z) :=
    ha.trans ((congrArg (· ++ z) s.split).trans (List.append_assoc ..))
  rw [PackageStatement.waitsIn, ← s.start, filter_tokens_behind hsplit]

theorem Stated.body_ne_nil {x y : List Token} {p : PackageStatement} (s : Stated x y p) :
    s.body ≠ [] := by
  intro hb
  have h := (dottedName?_last s.named).length_le
  rw [hb] at h
  simp only [List.length_cons, List.length_append, List.length_nil] at h
  omega

section

variable {a b new : Text} {p : PackageStatement} {ps : List Piece} {q : Piece}
  (hp : packageOf? (a ++ b) = some p) (hstop : p.span.stop ≤ Text.bytes a)
  (hb : b = [] ∨ ∀ c ∈ a.getLast?, c = '\n')

include hp hstop

theorem exists_stated_of_place {x y : List Token} (ht : tokens (a ++ b) = x ++ y)
    (hy : ∀ k ∈ y, k.kind = .literal ∨ Text.bytes a < k.stop) : Nonempty (Stated x y p) := by
  refine exists_stated (ht ▸ hp) fun k hk hle => (hy k hk).resolve_right ?_
  omega

/-- **A literal before the place** keeps the new text off the statement. -/
theorem packageOf?_behind_literal (new : Text) (h : pieces a = ps ++ [q])
    (hq : q.kind = .token .literal) :
    packageOf? a = some p ∧ packageOf? (a ++ new ++ b) = some p ∧ p.waitsIn a = false := by
  obtain ⟨k, ys, ht, hk, hys⟩ := tokens_literal_append h hq b
  obtain ⟨k', ys', hr, hk', -⟩ := tokens_literal_append h hq (new ++ b)
  rw [← List.append_assoc] at hr
  have ha : tokens a = place 0 ps ++
      [⟨.literal, 0 + Text.bytes (ps.flatMap Piece.text), q.text⟩] := by
    rw [tokens, h, place_append]
    simp only [place, hq]
  obtain ⟨s⟩ := exists_stated_of_place hp hstop ht fun l hl => by
    rcases List.mem_cons.1 hl with rfl | hl
    · exact .inl hk
    · exact .inr (hys l hl)
  have keeps : ∀ {l : Token} (z : List Token), l.kind = .literal →
      packageStatement? (place 0 ps ++ l :: z) = some p := by
    intro l z hl
    refine s.change (fun m hm => ?_) (.inl fun m hm => ?_)
    · obtain rfl := Option.some.inj hm
      simp [hl]
    · obtain rfl := Option.some.inj hm
      simp [hl]
  refine ⟨?_, ?_, ?_⟩
  · rw [packageOf?, ha]
    exact keeps [] rfl
  · rw [packageOf?, hr]
    exact keeps ys' hk'
  · rw [s.waitsIn_eq ha]
    refine Bool.eq_false_iff.2 fun ho => ?_
    have hdot := kind_of_nameOpen ho s.body_ne_nil
    cases hdot

include hb

/-- **An open comment before the place** takes the new text. -/
theorem packageOf?_behind_comment (h : pieces a = ps ++ [q]) (hopen : q.isOpenComment = true)
    (hslash : '/' ∉ new) (hend : new.getLast? = some '\n') : packageOf? a = some p ∧
      (packageOf? (a ++ new ++ b)).map (·.name) = some p.name := by
  have hcomment := (pieces_append_of_last h new).1
  rw [pieces_open_append hopen hslash] at hcomment
  have hnew : tokens (a ++ new) = tokens a := by
    obtain ⟨body, rfl, -⟩ := exists_of_isOpenComment hopen
    rw [tokens, tokens, hcomment, h, place_append, place_append]
    rfl
  obtain ⟨ys, ys', ht, hr, hrel, hys⟩ : ∃ ys ys', tokens (a ++ b) = tokens a ++ ys ∧
      tokens (a ++ new ++ b) = tokens a ++ ys' ∧
      List.Forall₂ (Token.Rel fun _ _ => True) ys ys' ∧ ∀ k ∈ ys, Text.bytes a < k.stop := by
    by_cases hnil : b = []
    · subst hnil
      exact ⟨[], [], by simp, by simp [hnew], .nil, fun k hk => by cases hk⟩
    have hline : a.getLast? = some '\n' := by
      have hne := (pieces_cons (pieces_of_append h).2.1).2.1.ne_nil
      obtain ⟨c, hc⟩ := Option.isSome_iff_exists.1 (List.getLast?_isSome.2 hne)
      rw [← getLast?_of_last h] at hc
      rw [hc, hb.resolve_left hnil c hc]
    have hopen' := isOpenComment_append hopen hslash
    have hline' : (a ++ new).getLast? = some '\n' := by
      rw [List.getLast?_append, hend]
      rfl
    have ht := tokens_open_append h hopen hline b
    have hr := tokens_open_append hcomment hopen' hline' b
    rw [hnew] at hr
    refine ⟨_, _, ht, hr, place_rel (fun _ => trivial) _, lt_stop_of_tokens ht fun k hk => ?_⟩
    exact Nat.le_trans (Nat.le_add_right ..) (start_le_of_mem_place hk).1
  obtain ⟨s⟩ := exists_stated_of_place hp hstop ht fun k hk => .inr (hys k hk)
  constructor
  · have hself := s.change (z := []) (fun k hk => by cases hk) (.inl NoWord.nil)
    rwa [List.append_nil] at hself
  · rw [packageOf?, hr]
    exact s.name_of_rel hrel

/-- **Any other piece before the place** keeps to itself, and the import is a word behind it. -/
theorem packageOf?_behind_closed {w : Token} {ks : List Token}
    (hq : ∀ q ∈ (pieces a).getLast?, q.isOpenComment = false ∧ q.kind ≠ .token .literal)
    (hnew : PutsIn (w :: ks) (Text.bytes a) (Text.bytes new) (a ++ b) (a ++ new ++ b))
    (hw : w.kind = .word) : packageOf? a = some p ∧
      ((packageOf? (a ++ new ++ b)).map (·.name) = some p.name ↔ p.waitsIn a = false) := by
  obtain ⟨ys, ht, hys, hr⟩ := hnew.split (pieces_append_of_closed hb hq)
  obtain ⟨s⟩ := exists_stated_of_place hp hstop ht fun k hk => .inr (lt_stop_of_tokens ht hys k hk)
  have hwaits : p.waitsIn a = nameOpen s.body := by
    have h := s.waitsIn_eq (z := []) (List.append_nil (tokens a)).symm
    rwa [List.append_nil] at h
  constructor
  · have hself := s.change (z := []) (fun k hk => by cases hk) (.inl NoWord.nil)
    rwa [List.append_nil] at hself
  · rw [packageOf?, hr, hwaits, List.append_assoc, List.cons_append]
    constructor
    · intro hname
      refine Bool.eq_false_iff.2 fun ho => ?_
      exact s.name_ne_of_nameOpen _ hw ho hname
    · intro ho
      have hkeep : packageStatement? (tokens a ++ w :: (ks ++ ys.map (Token.shift (Text.bytes new)))) =
          some p := by
        refine s.change (fun k hk => ?_) (.inr ho)
        obtain rfl := Option.some.inj hk
        simp [hw]
      rw [hkeep]
      rfl

end

/-! ## An import at its place -/

theorem tokens_importStatement {q : QualifiedName} (hq : Text.isDotted q.text = true) :
    ∃ ks, tokens (importStatement q) = ⟨.word, 0, "import"⟩ :: ks := by
  have hpieces := pieces_importStatement hq []
  rw [List.append_nil] at hpieces
  rw [tokens, hpieces]
  exact ⟨_, rfl⟩

/-- The statement with an import put in behind it, by the last piece before the place. -/
theorem packageOf?_importText {q : QualifiedName} {t after : Text} {p : PackageStatement}
    (hq : Text.isDotted q.text = true) (ht : t = (importPlace t).before ++ after)
    (hafter : after = [] ∨ ∀ c ∈ (importPlace t).before.getLast?, c = '\n')
    (hp : packageOf? t = some p) (hstop : p.span.stop ≤ Text.bytes (importPlace t).before) :
    packageOf? (importPlace t).before = some p ∧
      ((packageOf? ((importPlace t).before ++ importText q (importPlace t) t ++ after)).map (·.name) =
          some p.name ↔
        (p.waitsIn (importPlace t).before = true →
          ∃ c ∈ (pieces (importPlace t).before).getLast?, c.isOpenComment = true)) := by
  have hslash := slash_not_mem_importText hq (importPlace t) t
  obtain ⟨_, _, hrows⟩ := putsRows_importText hq ht hafter
  have hend : (importText q (importPlace t) t).getLast? = some '\n' := hrows.whole
  have hiff := putsIn_importText_iff hq ht hafter
  obtain ⟨ks, hks⟩ := tokens_importStatement hq
  rw [hks, List.map_cons] at hiff
  generalize importText q (importPlace t) t = new at *
  generalize (importPlace t).before = a at *
  subst ht
  by_cases hopen : ∃ c ∈ (pieces a).getLast?, c.isOpenComment = true
  · obtain ⟨c, hc, hcopen⟩ := id hopen
    obtain ⟨ps, hps⟩ := List.getLast?_eq_some_iff.1 hc
    obtain ⟨hself, hkept⟩ := packageOf?_behind_comment hp hstop hafter hps hcopen hslash hend
    exact ⟨hself, iff_of_true hkept fun _ => hopen⟩
  by_cases hliteral : ∃ c ∈ (pieces a).getLast?, c.kind = .token .literal
  · obtain ⟨c, hc, hclit⟩ := hliteral
    obtain ⟨ps, hps⟩ := List.getLast?_eq_some_iff.1 hc
    obtain ⟨hself, hkept, hwaits⟩ := packageOf?_behind_literal hp hstop new hps hclit
    refine ⟨hself, iff_of_true (by rw [hkept]; rfl) fun hw => ?_⟩
    rw [hwaits] at hw
    cases hw
  · have hclosed : ∀ c ∈ (pieces a).getLast?, c.isOpenComment = false ∧ c.kind ≠ .token .literal :=
      fun c hc => ⟨Bool.eq_false_iff.2 fun ho => hopen ⟨c, hc, ho⟩, fun hl => hliteral ⟨c, hc, hl⟩⟩
    have hputs := hiff.2 fun c hc => ⟨(hclosed c hc).1, fun hl => absurd hl (hclosed c hc).2⟩
    obtain ⟨hself, hkept⟩ := packageOf?_behind_closed hp hstop hafter hclosed hputs rfl
    refine ⟨hself, hkept.trans ?_⟩
    constructor
    · intro hw hw'
      rw [hw] at hw'
      cases hw'
    · intro hw
      exact Bool.eq_false_iff.2 fun ho => hopen (hw ho)

end Source

open Source

/-- **When an import leaves the package statement.** It goes behind the statement, not behind the start
of the first declaration, and the statement keeps its name, exactly if the lines before the place
have the statement, no declaration starts in them, and no name waits there for the word of the
import, unless that goes into a comment. -/
theorem importEdit?_package_iff {x t : Text} {q : QualifiedName} {e : Edit} {p : PackageStatement}
    (hq : QualifiedName.parse? x = some q) (he : importEdit? q t = some e)
    (hp : packageOf? t = some p) :
    ∃ r, e.apply t = .ok r ∧
      ((packageOf? r).map (·.name) = some p.name ∧ p.span.stop ≤ e.span.start ∧
          (∀ d ∈ (declarations t).head?, e.span.start ≤ d.span.start) ↔
        packageOf? (importPlace t).before = some p ∧
          (∀ d ∈ (declarations t).head?, Text.bytes (importPlace t).before ≤ d.span.start) ∧
          (p.waitsIn (importPlace t).before = true →
            ∃ c ∈ (pieces (importPlace t).before).getLast?, c.isOpenComment = true)) := by
  obtain rfl := eq_of_importEdit? he
  obtain ⟨after, ht, hafter⟩ := exists_after_importPlace t
  have hplace := packageOf?_importText (isDotted_of_parse? hq) ht hafter hp
  refine ⟨_, Edit.apply_eq_ok_iff.2 ⟨_, after, _, after, ht, rfl, ht, rfl, rfl⟩, ?_⟩
  constructor
  · rintro ⟨hname, hstop, hd⟩
    obtain ⟨hself, hiff⟩ := hplace hstop
    exact ⟨hself, hd, hiff.1 hname⟩
  · rintro ⟨hself, hd, hwaits⟩
    have hstop := packageOf?_stop_le hself
    exact ⟨(hplace hstop).2.2 hwaits, hstop, hd⟩

/-- The line of a package statement comes before the place. -/
theorem importEdit?_package_iff_line :
    let t : Text := "package a.b;\nclass C \x7b\x7d"
    ∃ p e r, packageOf? t = some p ∧ QualifiedName.parse? "x.Y" = some ⟨"x.Y"⟩ ∧
      importEdit? ⟨"x.Y"⟩ t = some e ∧ e.apply t = .ok r ∧
      (packageOf? r).map (·.name) = some p.name ∧ p.span.stop ≤ e.span.start ∧
      ∀ d ∈ (declarations t).head?, e.span.start ≤ d.span.start := by
  intro t
  have hp : packageOf? t = some ⟨⟨"a.b"⟩, ⟨0, 12⟩⟩ := by decide +kernel
  have hq : QualifiedName.parse? "x.Y" = some ⟨"x.Y"⟩ := by decide +kernel
  have he : importEdit? ⟨"x.Y"⟩ t = some (.insert 13 "\nimport x.Y;\n") := by decide +kernel
  have hd : ((declarations t).head?.map fun d => d.span.start) = some 13 := by decide +kernel
  have hself : packageOf? (importPlace t).before = some ⟨⟨"a.b"⟩, ⟨0, 12⟩⟩ := by decide +kernel
  have hwaits : PackageStatement.waitsIn ⟨⟨"a.b"⟩, ⟨0, 12⟩⟩ (importPlace t).before = false := by
    decide +kernel
  have hbytes : Text.bytes (importPlace t).before = 13 := by decide +kernel
  obtain ⟨r, hr, hiff⟩ := importEdit?_package_iff hq he hp
  refine ⟨_, _, r, hp, hq, he, hr, hiff.2 ⟨hself, fun d hm => ?_, fun hw => ?_⟩⟩
  · rw [Option.mem_def.1 hm] at hd
    have hstart : d.span.start = 13 := Option.some.inj hd
    omega
  · rw [hwaits] at hw
    cases hw

/-- An annotation on the line hides the package statement from the search for the place. -/
theorem importEdit?_package_lost :
    let t : Text := "@Deprecated package a.b;\nclass C \x7b\x7d"
    ∃ p e r, packageOf? t = some p ∧ QualifiedName.parse? "x.Y" = some ⟨"x.Y"⟩ ∧
      importEdit? ⟨"x.Y"⟩ t = some e ∧ e.apply t = .ok r ∧
      ¬ ((packageOf? r).map (·.name) = some p.name ∧ p.span.stop ≤ e.span.start ∧
        ∀ d ∈ (declarations t).head?, e.span.start ≤ d.span.start) := by
  intro t
  refine ⟨⟨⟨"a.b"⟩, ⟨12, 24⟩⟩, .insert 0 "import x.Y;\n\n",
    "import x.Y;\n\n@Deprecated package a.b;\nclass C \x7b\x7d", by decide +kernel,
    by decide +kernel, by decide +kernel, by rfl, ?_⟩
  rintro ⟨-, hstop, -⟩
  exact absurd hstop (by decide)

end QuickFix
