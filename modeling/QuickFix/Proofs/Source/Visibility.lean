import QuickFix.Source.ClassEdit
import QuickFix.Proofs.Source.Leading
import QuickFix.Proofs.Source.Lexing

/-!
# Giving a declaration another level

`Declaration.visibilityEdit` puts, replaces or removes one word. An `Approach` is a declaration of a
text with the place of that word: the text cut there, the run of the scan up to it and what leads on
from it to the keyword.

* `pieces_put_word` and `tokens_put_word`: a word and a space put before a token are one token more;
* `Approach.put_keyword`: the word of a level before a declaration gives it that level and leaves all
  others, if the scan waits for no name there;
* `Approach.replace_keyword`: so does a word in place of the one that gave the level;
* `Declaration.visibilityEdit_restores`: the edit of a class, an interface or an enum does either, and
  the edit back restores the text.
-/

namespace QuickFix

open Source Source.Scanner

/-! ## The words of the levels -/

namespace Visibility

variable {v : Visibility} {w : Text}

theorem isIdentifier_keyword (h : v.keyword? = some w) : Text.isIdentifier w = true := by
  cases v <;> cases h <;> decide

theorem keyword_not_mem_signs (h : v.keyword? = some w) : w ∉ signs := by
  cases v <;> cases h <;> decide

theorem exists_keyword (h : v ≠ .package) : ∃ w, v.keyword? = some w := by
  cases v with
  | package => exact absurd rfl h
  | priv | prot | pub => exact ⟨_, rfl⟩

/-- The word of a level is read as a modifier wherever a declaration may stand. -/
theorem role_keyword (h : v.keyword? = some w) (dot : Bool) (n : Nat) (ts : List Token) :
    role dot ⟨.word, n, w⟩ ts = .modifier := by
  cases v <;> cases h <;> rfl

end Visibility

/-! ## The text with a word put in -/

namespace Source

/-- A piece that is a word is an identifier, and no word stands before it. -/
theorem word_of_pieces {a u b : Text}
    (h : pieces (a ++ (u ++ b)) = pieces a ++ ⟨.token .word, u⟩ :: pieces b) :
    Text.isIdentifier u = true ∧ ∀ p ∈ (pieces a).getLast?, p.kind ≠ .token .word := by
  obtain ⟨-, hub, hlast⟩ := pieces_of_append h
  have hu := (word_endsBefore_iff.1 (pieces_cons hub).2.1).1
  exact ⟨hu, fun p hp => kind_ne_word_of_endsBefore (hlast p hp) hu⟩

/-- A word and a space put before a token that no word touches are a token more. -/
theorem pieces_put_word {a b u w : Text} {kind : TokenKind}
    (h : pieces (a ++ (u ++ b)) = pieces a ++ ⟨.token kind, u⟩ :: pieces b)
    (ha : ∀ p ∈ (pieces a).getLast?, p.kind ≠ .token .word) (hw : Text.isIdentifier w = true) :
    pieces (a ++ (w ++ ' ' :: (u ++ b))) =
      pieces a ++ ⟨.token .word, w⟩ :: ⟨.blank, [' ']⟩ :: ⟨.token kind, u⟩ :: pieces b := by
  obtain ⟨-, hub, hlast⟩ := pieces_of_append h
  obtain ⟨-, ⟨x, u', hu, hf⟩, -⟩ := pieces_cons hub
  obtain rfl : u = x :: u' := hu
  rw [List.flatMap_cons, flatten_pieces] at hub hlast
  have hx : x ≠ '\n' := by
    rintro rfl
    rw [firstPiece_blank (by decide)] at hf
    cases hf
  rw [pieces_append, pieces_word_space hw, hub]
  intro p hp
  obtain ⟨c, w', rfl, hc, -⟩ := exists_of_isIdentifier hw
  exact (hlast p hp).swap_word hx (ha p hp) hc

/-- Put behind a word, a word makes that longer. -/
theorem pieces_put_behind_word {a b u w : Text} (h : pieces (a ++ (u ++ b)) =
    pieces a ++ ⟨.token .word, u⟩ :: pieces b) (hw : Text.isIdentifier w = true) :
    pieces (a ++ ((u ++ w) ++ ' ' :: b)) =
      pieces a ++ ⟨.token .word, u ++ w⟩ :: ⟨.blank, [' ']⟩ :: pieces b := by
  obtain ⟨-, h₂, h₃⟩ := pieces_of_append h
  obtain ⟨-, hub, -⟩ := pieces_cons h₂
  rw [List.flatMap_cons, flatten_pieces] at h₃
  obtain ⟨c, u', rfl, hc, hu'⟩ := exists_of_isIdentifier (word_endsBefore_iff.1 hub).1
  obtain ⟨c', w', rfl, hc', hw'⟩ := exists_of_isIdentifier hw
  have hid : Text.isIdentifier (c :: u' ++ c' :: w') = true := by
    simp only [List.cons_append, Text.isIdentifier, hc, Bool.true_and, List.all_eq_true,
      List.mem_append, List.mem_cons]
    rintro d (hd | rfl | hd)
    · exact hu' d hd
    · exact Text.isIdentContinue_of_isIdentStart hc'
    · exact hw' d hd
  rw [pieces_append, pieces_word_space hid]
  intro p hp
  exact (h₃ p hp).swap fun y hy => .inl (Option.some.inj hy).symm

/-- A word in place of a word is a token in place of a token. -/
theorem pieces_replace_word {a b w w' : Text} (h : pieces (a ++ (w ++ b)) =
    pieces a ++ ⟨.token .word, w⟩ :: pieces b) (hw' : Text.isIdentifier w' = true) :
    pieces (a ++ (w' ++ b)) = pieces a ++ ⟨.token .word, w'⟩ :: pieces b := by
  obtain ⟨-, h₂, h₃⟩ := pieces_of_append h
  obtain ⟨-, hwb, -⟩ := pieces_cons h₂
  rw [flatten_pieces] at hwb
  rw [List.flatMap_cons, flatten_pieces] at h₃
  obtain ⟨hw, hb⟩ := word_endsBefore_iff.1 hwb
  have hsp : pieces (w' ++ b) = ⟨.token .word, w'⟩ :: pieces b :=
    Piece.EndsBefore.pieces_eq (word_endsBefore_iff.2 ⟨hw', hb⟩)
  rw [pieces_append, hsp]
  intro p hp
  have hpw := kind_ne_word_of_endsBefore (h₃ p hp) hw
  have hpe := h₃ p hp
  obtain ⟨c, u, rfl, hc, -⟩ := exists_of_isIdentifier hw
  obtain ⟨c', u', rfl, hc', -⟩ := exists_of_isIdentifier hw'
  refine hpe.swap_word ?_ hpw hc'
  rintro rfl
  exact absurd hc (by decide)

/-- The tokens of a text with a word in place of a word. -/
theorem tokens_replace_word {a b w w' : Text} (h : pieces (a ++ (w ++ b)) =
    pieces a ++ ⟨.token .word, w⟩ :: pieces b) (hw' : Text.isIdentifier w' = true) :
    tokens (a ++ (w' ++ b)) = tokens a ++ ⟨.word, Text.bytes a, w'⟩ ::
      place (Text.bytes a + Text.bytes w') (pieces b) := by
  rw [tokens, pieces_replace_word h hw', place_append, flatten_pieces, Nat.zero_add]
  rfl

/-- The tokens of a text whose pieces are cut by a word and a space. -/
theorem tokens_put_word {a w r : Text} {ps : List Piece}
    (h : pieces r = pieces a ++ ⟨.token .word, w⟩ :: ⟨.blank, [' ']⟩ :: ps) :
    tokens r = tokens a ++ ⟨.word, Text.bytes a, w⟩ ::
      place (Text.bytes a + Text.bytes w + Text.bytes [' ']) ps := by
  rw [tokens, h, place_append, flatten_pieces, Nat.zero_add]
  rfl

end Source

/-! ## What a declaration shows -/

namespace Declaration

/-- The name, the kind and the level of a declaration. -/
def outline (d : Declaration) : Text × ClassKind × Visibility := (d.name, d.kind, d.visibility)

theorem map_outline_eq {R : Nat → Nat → Prop} {ds es : List Declaration}
    (h : List.Forall₂ (Declaration.Rel R) ds es) : ds.map outline = es.map outline := by
  induction h with
  | nil => rfl
  | cons hd _ ih => rw [List.map_cons, List.map_cons, ih, outline, hd.name, hd.kind, hd.visibility]; rfl

/-- The same declarations, but for what one shows. -/
theorem map_outline_set_iff {R : Nat → Nat → Prop} {ds es es' : List Declaration}
    {d d' : Declaration} {o : Text × ClassKind × Visibility}
    (h : List.Forall₂ (Declaration.Rel R) es es') :
    (ds ++ d' :: es').map outline = ((ds ++ d :: es).map outline).set ds.length o ↔
      d'.outline = o := by
  have hl : ds.length = (ds.map outline).length := by simp
  rw [List.map_append, List.map_append, hl, List.set_append_right _ _ (Nat.le_refl _), Nat.sub_self,
    List.map_cons, List.map_cons, List.set_cons_zero, ← map_outline_eq h]
  simp

end Declaration

/-! ## The scan of the text with the word of a level put in -/

theorem visibility?_addModifier {v : Visibility} {w : Text} (h : Header) (n : Nat)
    (hv : v.keyword? = some w) :
    (h.addModifier ⟨.word, n, w⟩).visibility? = some (v, ⟨n, n + Text.bytes w⟩) := by
  simp only [Header.addModifier, Visibility.ofKeyword?_eq_some_iff.2 hv]
  rfl

/-- A run to the place, the word of a level there, and what leads on from it to a declaration: the
declaration is found with that word in its header. -/
theorem run_put_keyword {R : Nat → Nat → Prop} {last last' n : Nat} {pre x ms us : List Token}
    {ds : List Declaration} {s q s₂ s₃ : Scanner} {d : Declaration} {v : Visibility} {w : Text}
    (hlast : R last last') (hv : v.keyword? = some w)
    (hrun : Runs last ((start pre).put x) ds (s.put x)) (hs : s.rest = []) (hx : x ≠ [])
    (hpend : (start pre).pending? = none) (hq : Leads q ms s₂)
    (hms : ∀ m ∈ ms, Visibility.ofKeyword? m.text = none) (hd : s₂.step last = (some d, s₃))
    (hus : List.Forall₂ (Token.Rel R) q.rest us) :
    ∃ d' ds', (start (pre ++ ⟨.word, n, w⟩ :: us)).run last' = ds ++ d' :: ds' ∧
      d.FoundWith R (s.header.addModifier ⟨.word, n, w⟩) d' ∧
      List.Forall₂ (Declaration.Rel R) (s₃.run last) ds' := by
  have hj : Joins x (⟨.word, n, w⟩ :: us) := by
    intro k hk
    obtain rfl := Option.some.inj hk
    exact ⟨by simp, by simp, by simp, .inr (Visibility.keyword_not_mem_signs hv)⟩
  have hrun' := hrun.change last' hx hj (.inr (.inr hpend))
  have hrest : (s.put (⟨.word, n, w⟩ :: us)).rest = ⟨.word, n, w⟩ :: us := by simp [hs]
  have hst := step_modifier last' hrest (Visibility.role_keyword hv _ _ _)
  obtain ⟨d', ds', hr, hfound, hds⟩ : ∃ d' ds', (⟨false, _, us⟩ : Scanner).run last' =
      d' :: ds' ∧ _ := run_of_leads (s.header.addModifier ⟨.word, n, w⟩) hlast hq hms hd hus
  refine ⟨d', ds', ?_, hfound, hds⟩
  have hput : start (pre ++ ⟨.word, n, w⟩ :: us) = (start pre).put (⟨.word, n, w⟩ :: us) := rfl
  rw [hput, hrun'.run_eq, run_step (by rw [hrest]; exact List.cons_ne_nil _ _) hst,
    Option.toList_none, List.nil_append]
  exact congrArg (ds ++ ·) hr

namespace Source

/-- A declaration `d` of a text, found after `ds`, and a token on the way to it: the first of its
modifiers or its keyword, or the last modifier that names a level. From the state `onward`, with
nothing or that token read, plain modifiers lead to the keyword. -/
structure Approach (t : Text) (ds : List Declaration) (d : Declaration) where
  before : Text
  token : Token
  after : Text
  here : Scanner
  onward : Scanner
  plain : List Token
  keyword : Scanner
  behind : Scanner
  text_eq : t = before ++ (token.text ++ after)
  start_eq : token.start = Text.bytes before
  pieces_eq : pieces t = pieces before ++ ⟨.token token.kind, token.text⟩ :: pieces after
  runs : Runs (Text.bytes t)
    ((start (tokens before)).put (token :: place token.stop (pieces after))) ds here
  rest_eq : here.rest = token :: place token.stop (pieces after)
  onward_eq : onward = here ∨
    onward = ⟨false, here.header.addModifier token, place token.stop (pieces after)⟩ ∧
      role here.afterDot token (place token.stop (pieces after)) = .modifier
  leads : Leads onward plain keyword
  plain_level : ∀ m ∈ plain, Visibility.ofKeyword? m.text = none
  found : keyword.step (Text.bytes t) = (some d, behind)

namespace Approach

/-- The approach at the token that a run comes to. -/
theorem of_runs {t : Text} {ds : List Declaration} {d : Declaration} {s q s₂ s₃ : Scanner}
    {k : Token} {x ms : List Token} (h : Runs (Text.bytes t) (start (tokens t)) ds s)
    (hs : s.rest = k :: x)
    (hq : q = s ∨ q = ⟨false, s.header.addModifier k, x⟩ ∧ role s.afterDot k x = .modifier)
    (hl : Leads q ms s₂) (hms : ∀ m ∈ ms, Visibility.ofKeyword? m.text = none)
    (hd : s₂.step (Text.bytes t) = (some d, s₃)) :
    ∃ p : Approach t ds d, p.token = k ∧ p.here = s ∧ p.onward = q ∧
      place p.token.stop (pieces p.after) = x ∧ p.keyword = s₂ ∧ p.plain = ms := by
  obtain ⟨pre, hpre⟩ := h.suffix
  rw [hs] at hpre
  obtain ⟨a, b, ht, ha, hk, hp, rfl⟩ := exists_split_of_tokens (show tokens t = _ from hpre.symm)
  have hput : (start (tokens a)).put (k :: place k.stop (pieces b)) = start (tokens t) := by
    rw [ha, ← show pre ++ k :: _ = tokens t from hpre]
    rfl
  exact ⟨⟨a, k, b, s, q, ms, s₂, s₃, ht, hk, hp, by rwa [hput], hs, hq, hl, hms, hd⟩,
    rfl, rfl, rfl, rfl, rfl, rfl⟩

variable {t : Text} {ds : List Declaration} {d : Declaration}

theorem pieces_text (p : Approach t ds d) : pieces (p.before ++ (p.token.text ++ p.after)) =
    pieces p.before ++ ⟨.token p.token.kind, p.token.text⟩ :: pieces p.after := by
  rw [← p.text_eq, p.pieces_eq]

theorem tokens_eq (p : Approach t ds d) :
    tokens t = tokens p.before ++ p.token :: place p.token.stop (pieces p.after) := by
  have h : tokens t = place 0 (pieces t) := rfl
  rw [h, p.pieces_eq, place_append, flatten_pieces, Nat.zero_add, ← p.start_eq]
  rfl

theorem runs_put (p : Approach t ds d) : Runs (Text.bytes t)
    ((start (tokens p.before)).put (p.token :: place p.token.stop (pieces p.after))) ds
    ((p.here.withRest []).put (p.token :: place p.token.stop (pieces p.after))) := by
  rw [withRest_put p.rest_eq]
  exact p.runs

theorem rest_rel_of {R : Nat → Nat → Prop} (p : Approach t ds d) {n : Nat}
    (hR : ∀ i, R (p.token.start + i) (n + i)) : List.Forall₂ (Token.Rel R) p.here.rest
      (place n (⟨.token p.token.kind, p.token.text⟩ :: pieces p.after)) := by
  rw [p.rest_eq]
  exact place_rel hR (⟨.token p.token.kind, p.token.text⟩ :: pieces p.after)

theorem rest_rel (p : Approach t ds d) (n : Nat) :
    List.Forall₂ (Token.Rel fun _ _ => True) p.here.rest
      (place n (⟨.token p.token.kind, p.token.text⟩ :: pieces p.after)) :=
  p.rest_rel_of fun _ => trivial

theorem pending?_eq_none (p : Approach t ds d) (hk : p.token.kind = .word) :
    (start (tokens p.before)).pending? = none :=
  (p.runs_put.pending?_eq hk).trans (pending?_nil rfl)

theorem declarations_eq (p : Approach t ds d) :
    declarations t = ds ++ d :: p.behind.run (Text.bytes t) := by
  have honward : Runs (Text.bytes t) p.here [] p.onward := by
    rcases p.onward_eq with he | ⟨he, hrole⟩
    · rw [he]; exact .refl _
    · have hst := step_modifier (Text.bytes t) p.rest_eq hrole
      rw [he]
      exact .step (by rw [p.rest_eq]; exact List.cons_ne_nil _ _) hst (.refl _)
  have hrest : p.keyword.rest ≠ [] := fun he => by have := p.found; simp [step, he] at this
  have hrun := (p.runs.trans honward).trans (p.leads.runs (Text.bytes t))
  rw [List.append_nil, List.append_nil] at hrun
  have hrun' := hrun.run_eq
  rw [run_step hrest p.found] at hrun'
  rw [declarations, p.tokens_eq]
  exact hrun'

/-- The text `r` has the declarations of `t`, but for the level of `d`, which is `v` by a modifier
at `span`. -/
def Relevels (_ : Approach t ds d) (v : Visibility) (span : Span) (r : Text) : Prop :=
  (declarations r).map Declaration.outline =
      ((declarations t).map Declaration.outline).set ds.length (d.name, d.kind, v) ∧
    ∃ d', (declarations r)[ds.length]? = some d' ∧ d'.visibility = v ∧
      d'.visibilitySpan? = some span

/-- The scan of a text with the word of a level before what goes onward. -/
theorem found_of_tokens {R : Nat → Nat → Prop} (p : Approach t ds d) {v : Visibility} {w r : Text}
    {us : List Token} (hlast : R (Text.bytes t) (Text.bytes r)) (hv : v.keyword? = some w)
    (hpend : (start (tokens p.before)).pending? = none)
    (hr : tokens r = tokens p.before ++ ⟨.word, Text.bytes p.before, w⟩ :: us)
    (hus : List.Forall₂ (Token.Rel R) p.onward.rest us) :
    ∃ d' ds', declarations r = ds ++ d' :: ds' ∧
      d.FoundWith R (p.here.header.addModifier ⟨.word, Text.bytes p.before, w⟩) d' ∧
      List.Forall₂ (Declaration.Rel R) (p.behind.run (Text.bytes t)) ds' := by
  rw [declarations, hr]
  exact run_put_keyword (s := p.here.withRest []) hlast hv p.runs_put rfl (List.cons_ne_nil _ _) hpend
    p.leads p.plain_level p.found hus

/-- There the declaration has that level, and all others have theirs. -/
theorem relevels_of_tokens (p : Approach t ds d) {v : Visibility} {w r : Text} {us : List Token}
    (hv : v.keyword? = some w) (hpend : (start (tokens p.before)).pending? = none)
    (hr : tokens r = tokens p.before ++ ⟨.word, Text.bytes p.before, w⟩ :: us)
    (hus : List.Forall₂ (Token.Rel fun _ _ => True) p.onward.rest us) :
    p.Relevels v ⟨Text.bytes p.before, Text.bytes p.before + Text.bytes w⟩ r := by
  obtain ⟨d', ds', hr', hfound, hds⟩ := p.found_of_tokens trivial hv hpend hr hus
  have hlev : d'.visibility = v := by
    rw [hfound.visibility, visibility?_addModifier _ _ hv]
    rfl
  have hsp := hfound.visibilitySpan?
  rw [visibility?_addModifier _ _ hv] at hsp
  refine ⟨?_, d', by rw [hr']; simp, hlev, hsp⟩
  rw [hr', p.declarations_eq]
  refine (Declaration.map_outline_set_iff hds).2 ?_
  rw [Declaration.outline, hfound.name, hfound.kind, hlev]

theorem word_text (p : Approach t ds d) (hk : p.token.kind = .word) :
    pieces (p.before ++ (p.token.text ++ p.after)) =
      pieces p.before ++ ⟨.token .word, p.token.text⟩ :: pieces p.after := by
  rw [p.pieces_text, hk]

theorem isIdentifier_token (p : Approach t ds d) (hk : p.token.kind = .word) :
    Text.isIdentifier p.token.text = true := (word_of_pieces (p.word_text hk)).1

theorem before_ne_word (p : Approach t ds d) (hk : p.token.kind = .word) :
    ∀ q ∈ (pieces p.before).getLast?, q.kind ≠ .token .word := (word_of_pieces (p.word_text hk)).2

/-- **The word of a level put before a declaration** gives it that level, where no word touches it
and no statement waits for a name. -/
theorem put_keyword (p : Approach t ds d) (hon : p.onward = p.here)
    (hword : ∀ q ∈ (pieces p.before).getLast?, q.kind ≠ .token .word)
    (hpend : (start (tokens p.before)).pending? = none) {v : Visibility} {w : Text}
    (hv : v.keyword? = some w) :
    p.Relevels v ⟨Text.bytes p.before, Text.bytes p.before + Text.bytes w⟩
      (p.before ++ (w ++ ' ' :: (p.token.text ++ p.after))) := by
  refine p.relevels_of_tokens hv hpend (tokens_put_word
    (pieces_put_word p.pieces_text hword (Visibility.isIdentifier_keyword hv))) ?_
  rw [hon]
  exact p.rest_rel _

/-- **The word of a level in place of the last one** before a declaration gives it that level. -/
theorem replace_keyword (p : Approach t ds d) (hk : p.token.kind = .word)
    (hon : p.onward.rest = place p.token.stop (pieces p.after)) {v : Visibility} {w : Text}
    (hv : v.keyword? = some w) :
    p.Relevels v ⟨Text.bytes p.before, Text.bytes p.before + Text.bytes w⟩
      (p.before ++ (w ++ p.after)) := by
  refine p.relevels_of_tokens hv (p.pending?_eq_none hk)
    (tokens_replace_word (p.word_text hk) (Visibility.isIdentifier_keyword hv)) ?_
  rw [hon]
  exact place_rel (fun _ => trivial) (pieces p.after)

/-- The approach is to the first modifier or the keyword of a declaration without a level of its
own. -/
structure Fresh (p : Approach t ds d) : Prop where
  visibilitySpan? : d.visibilitySpan? = none
  visibility : d.visibility = .package
  modifierStart : d.modifierStart = Text.bytes p.before
  onward : p.onward = p.here
  header : p.here.header.visibility? = none
  token : p.token.kind = .word ∧
      (p.token.text ∈ modifiers ∨ ∃ kind, keywordKind? p.token.text = some kind) ∨
    p.plain = [] ∧ p.keyword = p.here ∧ d.kind = .annotationType ∧
      role p.here.afterDot p.token (place p.token.stop (pieces p.after)) = .annotationType

/-- What stands before anything but an annotation type is a word. -/
theorem Fresh.word {p : Approach t ds d} (h : p.Fresh) (hk : d.kind ≠ .annotationType) :
    p.token.kind = .word := by
  rcases h.token with hw | ⟨-, -, hkind, -⟩
  · exact hw.1
  · exact absurd hkind hk

/-- The approach is to the modifier that gives a declaration its level. -/
structure Leveled (p : Approach t ds d) : Prop where
  visibilitySpan? : d.visibilitySpan? =
    some ⟨Text.bytes p.before, Text.bytes p.before + Text.bytes p.token.text⟩
  visibility : d.visibility.keyword? = some p.token.text
  token : p.token.kind = .word
  onward : p.onward.rest = place p.token.stop (pieces p.after)

end Approach

/-- Every declaration has an approach to where its level is or can be given. -/
theorem exists_approach {t : Text} {i : Nat} {d : Declaration}
    (h : (declarations t)[i]? = some d) :
    ∃ ds, ds.length = i ∧ ∃ p : Approach t ds d, p.Fresh ∨ p.Leveled := by
  obtain ⟨ds, s, k, x, ms, s₂, s₃, hrun, hlen, hs, hm, hv, hl, hd, hstart, ha⟩ :=
    exists_leads h rfl rfl
  refine ⟨ds, hlen, ?_⟩
  obtain ⟨-, -, -, hlev, hspan, -, -⟩ := header_of_step hd
  rcases hl.last_visibility with ⟨hvis, hms⟩ | ⟨ms₁, sw, w, y, v, ms₂, hl₁, hw, hrole, hwv, hl₂,
    hvis, hms⟩
  · rw [hvis, hv] at hlev hspan
    obtain ⟨p, rfl, rfl, hon, rfl, rfl, rfl⟩ := Approach.of_runs hrun hs (.inl rfl) hl hms hd
    refine ⟨p, .inl ⟨hspan, hlev, hstart.trans p.start_eq, hon, hv, ?_⟩⟩
    rcases kind_of_leads hs ha hl hd with hk | ⟨hms, hkey, hrole, hkind⟩
    · exact .inl hk
    · exact .inr ⟨hms, hkey, hkind, hrole⟩
  · rw [hvis] at hlev hspan
    have hrun₁ := hrun.trans (hl₁.runs (Text.bytes t))
    rw [List.append_nil] at hrun₁
    obtain ⟨p, rfl, rfl, hon, rfl, rfl, rfl⟩ :=
      Approach.of_runs hrun₁ hw (.inr ⟨rfl, hrole⟩) hl₂ hms hd
    refine ⟨p, .inr ⟨?_, ?_, (Role.Fits.of_eq hrole).1, by rw [hon]⟩⟩
    · rw [hspan, ← p.start_eq]
      rfl
    · rw [hlev]
      exact Visibility.ofKeyword?_eq_some_iff.1 hwv

end Source

/-! ## The edits -/

namespace Declaration

theorem visibilityEdit_of_eq {d : Declaration} {v : Visibility} (t : Text) (h : d.visibility = v) :
    d.visibilityEdit v t = .ok none := by rw [visibilityEdit, if_pos h]

theorem visibilityEdit_insert {d : Declaration} {v : Visibility} {w : Text} (t : Text)
    (h : d.visibility ≠ v) (hs : d.visibilitySpan? = none) (hv : v.keyword? = some w) :
    d.visibilityEdit v t =
      .ok (some ⟨⟨d.modifierStart, d.modifierStart + Text.bytes []⟩, w ++ [' ']⟩) := by
  rw [visibilityEdit, if_neg h, hs, hv]
  rfl

theorem visibilityEdit_replace {d : Declaration} {v : Visibility} {w : Text} {span : Span}
    (t : Text) (h : d.visibility ≠ v) (hs : d.visibilitySpan? = some span)
    (hv : v.keyword? = some w) : d.visibilityEdit v t = .ok (some ⟨span, w⟩) := by
  rw [visibilityEdit, if_neg h, hs, hv]

/-- The edit that removes a modifier removes the blanks after it too. -/
theorem visibilityEdit_remove_blanks {d : Declaration} {a w ws b : Text} (h : d.visibility ≠ .package)
    (hs : d.visibilitySpan? = some ⟨Text.bytes a, Text.bytes a + Text.bytes w⟩)
    (hws : ∀ c ∈ ws, Text.isBlank c = true) (hb : ∀ c ∈ b.head?, Text.isBlank c = false) :
    d.visibilityEdit .package (a ++ (w ++ (ws ++ b))) =
      .ok (some ⟨⟨Text.bytes a, Text.bytes a + Text.bytes (w ++ ws)⟩, []⟩) := by
  have hcut : Text.cutBytes? (Text.bytes a + Text.bytes w) (a ++ (w ++ (ws ++ b))) =
      some (a ++ w, ws ++ b) := Text.cutBytes?_eq_some_iff.2 ⟨by simp, by simp⟩
  have hblank : (ws ++ b).takeWhile Text.isBlank = ws := (takeWhile_append_of_head hws hb).1
  rw [visibilityEdit, if_neg h, hs]
  simp only [Visibility.keyword?, cutAt, hcut, bind, Except.bind, pure, Except.pure, hblank,
    Text.bytes_append, Nat.add_assoc]

/-- The edit that removes a modifier removes the space after it, before a character that is not
blank. -/
theorem visibilityEdit_remove {d : Declaration} {a w b : Text} {x : Char}
    (h : d.visibility ≠ .package)
    (hs : d.visibilitySpan? = some ⟨Text.bytes a, Text.bytes a + Text.bytes w⟩)
    (hx : Text.isBlank x = false) : d.visibilityEdit .package (a ++ (w ++ ' ' :: x :: b)) =
      .ok (some ⟨⟨Text.bytes a, Text.bytes a + Text.bytes (w ++ [' '])⟩, []⟩) := by
  have hspace : ∀ c ∈ [' '], Text.isBlank c = true := by
    intro c hc
    obtain rfl := List.mem_singleton.1 hc
    rfl
  have hhead : ∀ c ∈ (x :: b).head?, Text.isBlank c = false := by simpa using hx
  exact visibilityEdit_remove_blanks h hs hspace hhead

end Declaration

namespace Source.Approach

variable {t : Text} {ds : List Declaration} {d : Declaration} {p : Approach t ds d}
  {v : Visibility} {w : Text}

/-- The edit puts the word and a space before the token. -/
theorem Fresh.edit (h : p.Fresh) (hne : d.visibility ≠ v) (hv : v.keyword? = some w) :
    ∃ e, d.visibilityEdit v t = .ok (some e) ∧
      e.apply t = .ok (p.before ++ (w ++ ' ' :: (p.token.text ++ p.after))) := by
  refine ⟨_, Declaration.visibilityEdit_insert t hne h.visibilitySpan? hv, ?_⟩
  rw [h.modifierStart]
  have := Edit.apply_between p.before [] (w ++ [' ']) (p.token.text ++ p.after)
  rw [List.nil_append, ← p.text_eq] at this
  simpa using this

/-- The edit puts the word in place of the token. -/
theorem Leveled.edit (h : p.Leveled) (hne : d.visibility ≠ v) (hv : v.keyword? = some w) :
    ∃ e, d.visibilityEdit v t = .ok (some e) ∧ e.apply t = .ok (p.before ++ (w ++ p.after)) := by
  refine ⟨_, Declaration.visibilityEdit_replace t hne h.visibilitySpan? hv, ?_⟩
  have := Edit.apply_between p.before p.token.text w p.after
  rwa [← p.text_eq] at this

/-- A modifier or keyword does not start with a blank. -/
theorem exists_not_blank {u : Text}
    (h : u ∈ modifiers ∨ ∃ kind, keywordKind? u = some kind) :
    ∃ x u', u = x :: u' ∧ Text.isBlank x = false := by
  have hall : ∀ u ∈ modifiers ++ (["class", "interface", "enum"] : List Text),
      u.head?.map Text.isBlank = some false := by decide
  have hu : u ∈ modifiers ++ (["class", "interface", "enum"] : List Text) := by
    refine List.mem_append.2 (h.imp_right ?_)
    rintro ⟨kind, hk⟩
    unfold keywordKind? at hk
    split at hk
    · rename_i he; rw [he]; decide
    split at hk
    · rename_i he; rw [he]; decide
    split at hk
    · rename_i he; rw [he]; decide
    · cases hk
  obtain ⟨x, hx, hb⟩ := Option.map_eq_some_iff.1 (hall u hu)
  obtain ⟨u', rfl⟩ := List.head?_eq_some_iff.1 hx
  exact ⟨x, u', rfl, hb⟩

end Source.Approach

/-- **Giving a class, an interface or an enum a level** other than the package's: it has the level, or
the edit applies, the new text has the same declarations but for this level, and the edit back to the
old level restores the text. -/
theorem Declaration.visibilityEdit_restores {t : Text} {i : Nat} {d : Declaration}
    {v : Visibility} (hd : (declarations t)[i]? = some d) (hk : d.kind ≠ .annotationType)
    (hv : v ≠ .package) :
    (d.visibilityEdit v t = .ok none ∧ d.visibility = v) ∨
      ∃ e r, d.visibilityEdit v t = .ok (some e) ∧ e.apply t = .ok r ∧
        (declarations r).map outline =
          ((declarations t).map outline).set i (d.name, d.kind, v) ∧
        ∃ d' e', (declarations r)[i]? = some d' ∧
          d'.visibilityEdit d.visibility r = .ok (some e') ∧ e'.apply r = .ok t := by
  by_cases hne : d.visibility = v
  · exact .inl ⟨visibilityEdit_of_eq t hne, hne⟩
  obtain ⟨w, hw⟩ := Visibility.exists_keyword hv
  obtain ⟨ds, rfl, p, hp | hp⟩ := exists_approach hd
  · obtain ⟨hword, htext⟩ : p.token.kind = .word ∧
        (p.token.text ∈ modifiers ∨ ∃ kind, keywordKind? p.token.text = some kind) := by
      rcases hp.token with h | ⟨-, -, hkind, -⟩
      · exact h
      · exact absurd hkind hk
    obtain ⟨-, htok, hlast⟩ := pieces_of_append p.pieces_text
    have hid : Text.isIdentifier p.token.text = true := by
      have := (pieces_cons htok).2.1
      rw [hword] at this
      exact (word_endsBefore_iff.1 this).1
    have hbefore : ∀ q ∈ (pieces p.before).getLast?, q.kind ≠ .token .word := fun q hq =>
      kind_ne_word_of_endsBefore (hlast q hq) hid
    obtain ⟨ho, d', hd', hlev, hspan⟩ :=
      p.put_keyword hp.onward hbefore (p.pending?_eq_none hword) hw
    obtain ⟨e, he, hr⟩ := hp.edit hne hw
    refine .inr ⟨e, _, he, hr, ho, d', ?_⟩
    obtain ⟨x, u, hu, hx⟩ := Approach.exists_not_blank htext
    have hback : d'.visibility ≠ .package := by rw [hlev]; exact hv
    rw [hp.visibility, hu, List.cons_append]
    refine ⟨_, by rw [← List.cons_append, ← hu]; exact hd',
      visibilityEdit_remove hback hspan hx, ?_⟩
    have := Edit.apply_between p.before (w ++ [' ']) [] (x :: u ++ p.after)
    rw [List.nil_append, ← hu, ← p.text_eq] at this
    simpa [hu] using this
  · obtain ⟨ho, d', hd', hlev, hspan⟩ := p.replace_keyword hp.token hp.onward hw
    obtain ⟨e, he, hr⟩ := hp.edit hne hw
    have hback : d'.visibility ≠ d.visibility := by rw [hlev]; exact Ne.symm hne
    refine .inr ⟨e, _, he, hr, ho, d', _, hd', visibilityEdit_replace _ hback hspan hp.visibility, ?_⟩
    have := Edit.apply_between p.before w p.token.text p.after
    rwa [← p.text_eq] at this

theorem Declaration.visibilityEdit_restores_final :
    ∃ d e r, (declarations "final class A {}")[0]? = some d ∧
      d.visibilityEdit .pub "final class A {}" = .ok (some e) ∧
      e.apply "final class A {}" = .ok r ∧ (declarations r).map outline = [(['A'], .plain, .pub)] ∧
      ∃ d' e', (declarations r)[0]? = some d' ∧ d'.visibilityEdit .package r = .ok (some e') ∧
        e'.apply r = .ok "final class A {}" := by
  have hd : (declarations "final class A {}")[0]? = some
      ⟨"A", .plain, .package, none, 0, ⟨0, 16⟩, ⟨12, 13⟩, some ⟨14, 16⟩⟩ := by decide +kernel
  have ho : ((declarations "final class A {}").map outline).set 0 (['A'], .plain, .pub) =
      [(['A'], .plain, .pub)] := by decide +kernel
  rcases visibilityEdit_restores (v := .pub) hd (by decide) (by decide) with ⟨-, h⟩ | h
  · cases h
  · obtain ⟨e, r, he, hr, hall, d', e', hback⟩ := h
    exact ⟨_, e, r, hd, he, hr, hall.trans ho, d', e', hback⟩

end QuickFix
