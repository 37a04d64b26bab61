import QuickFix.Proofs.Name.Segments
import QuickFix.Proofs.Source.Reading
import QuickFix.Proofs.Source.PackageStatement
import QuickFix.Proofs.Source.Partition

/-!
# Names as tokens

A name is checked by its characters and read from the tokens of a file, and the two accept the same
names.

* `isIdentifier_iff_tokens`, `isDotted_iff_tokens`: which tokens an identifier and a dotted name are;
* `dottedName?_cases`, `closing?_cases`, `annotationRest_cases`: what the tokens were of which a reader
  left the rest;
* `packageStatement?_isSome_iff`: which tokens start with a package statement;
* `packageOf?_line`: the package of a text is the one that its first line names;
* `names_are_tokens`: all of it, for texts.
-/

namespace QuickFix

open Text

namespace Source

/-! ## Tokens without gaps -/

/-- The tokens cover the stretch from offset `a` to offset `b`, one after the other and nothing
between them. -/
def Tiles : Nat → List Token → Nat → Prop
  | a, [], b => a = b
  | a, k :: ts, b => k.start = a ∧ Tiles k.stop ts b

/-- Pieces of which the tokens leave no gap are tokens, all of them. -/
theorem Tiles.flatMap_text {n : Nat} {ps : List Piece} (hne : ∀ p ∈ ps, p.text ≠ [])
    (h : Tiles n (place n ps) (n + bytes (ps.flatMap Piece.text))) :
    (place n ps).flatMap Token.text = ps.flatMap Piece.text := by
  induction ps generalizing n with
  | nil => rfl
  | cons p ps ih =>
    obtain ⟨hp, hps⟩ := List.forall_mem_cons.1 hne
    rw [List.flatMap_cons, bytes_append, ← Nat.add_assoc] at h
    obtain ⟨kind, text⟩ := p
    have hpos : 0 < bytes text := bytes_pos hp
    cases kind with
    | token kind => exact congrArg (text ++ ·) (ih hps h.2)
    | blank | comment =>
      -- the next token starts too late
      exfalso
      change Tiles n (place (n + bytes text) ps) _ at h
      cases hts : place (n + bytes text) ps with
      | nil =>
        rw [hts] at h
        have h : n = n + bytes text + bytes (ps.flatMap Piece.text) := h
        omega
      | cons k ts =>
        rw [hts] at h
        have := (start_le_of_mem_place (k := k) (hts ▸ List.mem_cons_self)).1
        have := h.1
        omega

/-! ## Names -/

theorem isIdentifier_of_mem_tokens {t : Text} {k : Token} (hk : k ∈ tokens t)
    (hw : k.kind = .word) : isIdentifier k.text = true := by
  obtain ⟨b, hb⟩ := endsBefore_of_mem_tokens hk
  rw [hw] at hb
  exact (word_endsBefore_iff.1 hb).1

theorem isIdentifier_iff_tokens {s : Text} :
    isIdentifier s = true ↔ tokens s = [⟨.word, 0, s⟩] := by
  constructor
  · intro h
    rw [tokens, pieces_word h]
    rfl
  · intro h
    exact isIdentifier_of_mem_tokens (k := ⟨.word, 0, s⟩) (h ▸ List.mem_cons_self) rfl

/-- A name whose words are identifiers is dotted. -/
theorem DottedName.isDotted_text {n : DottedName}
    (h : ∀ k ∈ n.tokens, k.kind = .word → isIdentifier k.text = true) :
    isDotted n.text = true := by
  obtain ⟨first, more⟩ := n
  induction more generalizing first with
  | nil =>
    rw [text, List.flatMap_nil, List.append_nil]
    exact isDotted_of_isIdentifier (h first.token List.mem_cons_self rfl)
  | cons s more ih =>
    obtain ⟨hfirst, h⟩ := List.forall_mem_cons.1 h
    have hs := ih s.word fun k hk => h k (List.mem_cons_of_mem s.dot.token hk)
    have htext : text ⟨first, s :: more⟩ = first.text ++ '.' :: text ⟨s.word, more⟩ := rfl
    have hfirst : isIdentifier first.text = true := hfirst rfl
    rw [htext, isDotted_append, isDotted_of_isIdentifier hfirst, hs]
    rfl

/-- The tokens of a dotted name are a name that reads so, wherever it starts. -/
theorem exists_dottedName {t : Text} (h : isDotted t = true) (n : Nat) :
    ∃ name : DottedName, name.text = t ∧ place n (pieces t) = name.tokens ∧
      Tiles n name.tokens (n + bytes t) := by
  revert n
  refine isDotted_induction
    (motive := fun t => ∀ n, ∃ name : DottedName, name.text = t ∧ place n (pieces t) = name.tokens ∧
      Tiles n name.tokens (n + bytes t)) h (fun a ha n => ?_) fun a b ha hb ih n => ?_
  · refine ⟨⟨⟨n, a⟩, []⟩, List.append_nil a, ?_, rfl, rfl⟩
    rw [pieces_word ha]
    rfl
  · let dot : Leaf .dot := ⟨n + bytes a, ['.']⟩
    obtain ⟨name, htext, htokens, htiles⟩ := ih dot.token.stop
    have hsum : n + bytes (a ++ '.' :: b) = dot.token.stop + bytes b := by
      rw [bytes_append, ← List.singleton_append, bytes_append, ← Nat.add_assoc, ← Nat.add_assoc]
      rfl
    refine ⟨⟨⟨n, a⟩, ⟨dot, name.first⟩ :: name.more⟩, ?_, ?_, ?_⟩
    · rw [← htext]
      rfl
    · rw [pieces_word_dot ha]
      exact congrArg (fun ts => ⟨.word, n, a⟩ :: dot.token :: ts) htokens
    · rw [hsum]
      exact ⟨rfl, rfl, htiles⟩

/-- A text that is a name's tokens and nothing else reads as the name. -/
theorem DottedName.text_eq_of_tiles {n : DottedName} {t : Text} (h : Source.tokens t = n.tokens)
    (ht : Tiles 0 (Source.tokens t) (bytes t)) : n.text = t := by
  have htext : (Source.tokens t).flatMap Token.text = t := by
    have hflat := flatten_pieces t
    refine (Tiles.flatMap_text (fun _ => text_ne_nil_of_mem_pieces) ?_).trans hflat
    rw [hflat, Nat.zero_add]
    exact ht
  have hdot : ∀ k ∈ n.tokens, k.kind = .dot → k.text = ['.'] := by
    intro k hk hd
    exact (parts_tokens t).sign (h ▸ hk) (hd ▸ rfl)
  rw [← htext, h, text, tokens, List.flatMap_cons, List.flatMap_assoc]
  refine congrArg (n.first.text ++ ·) (List.flatMap_congr fun s hs => ?_)
  have hmem : s.dot.token ∈ n.tokens :=
    List.mem_cons_of_mem _ (List.mem_flatMap.2 ⟨s, hs, List.mem_cons_self⟩)
  have hs : s.dot.text = ['.'] := hdot s.dot.token hmem rfl
  show _ = s.dot.text ++ (s.word.text ++ [])
  rw [hs, List.append_nil]
  rfl

theorem isDotted_iff_tokens {t : Text} : isDotted t = true ↔
    (∃ name : DottedName, tokens t = name.tokens) ∧ Tiles 0 (tokens t) (bytes t) := by
  constructor
  · intro h
    obtain ⟨name, -, htokens, htiles⟩ := exists_dottedName h 0
    have htokens : tokens t = name.tokens := htokens
    rw [Nat.zero_add] at htiles
    exact ⟨⟨name, htokens⟩, htokens ▸ htiles⟩
  · rintro ⟨⟨name, h⟩, htiles⟩
    rw [← name.text_eq_of_tiles h htiles]
    exact DottedName.isDotted_text fun k hk => isIdentifier_of_mem_tokens (h ▸ hk)

/-! ## What a reader has read -/

theorem exists_leaf {k : Token} {kind : TokenKind} (h : k.kind = kind) :
    ∃ l : Leaf kind, l.token = k := by
  subst h
  exact ⟨⟨k.start, k.text⟩, rfl⟩

theorem moreSegments_cases (name : Text) (last : Token) (ts : List Token) :
    ∃ segments : List Segment,
      (moreSegments name last ts).1 = name ++ (segments.flatMap fun s => '.' :: s.word.text) ∧
      ts = segments.flatMap Segment.tokens ++ (moreSegments name last ts).2.2 := by
  fun_induction moreSegments name last ts with
  | case1 name last d w ts h ih =>
    obtain ⟨segments, hname, hrest⟩ := ih
    obtain ⟨dot, rfl⟩ := exists_leaf h.1
    obtain ⟨word, rfl⟩ := exists_leaf h.2
    refine ⟨⟨dot, word⟩ :: segments, ?_, congrArg (dot.token :: word.token :: ·) hrest⟩
    rw [hname, List.flatMap_cons, List.append_assoc, List.append_assoc]
    rfl
  | case2 name last d w ts => exact ⟨[], (List.append_nil name).symm, rfl⟩
  | case3 name last ts => exact ⟨[], (List.append_nil name).symm, rfl⟩

/-- What was read as a dotted name is one. -/
theorem dottedName?_cases {ts rest : List Token} {text : Text} {last : Token}
    (h : dottedName? ts = some (text, last, rest)) :
    ∃ name : DottedName, name.text = text ∧ ts = name.tokens ++ rest := by
  cases ts with
  | nil => cases h
  | cons w ts =>
    simp only [dottedName?] at h
    split at h
    · rename_i hw
      obtain ⟨first, rfl⟩ := exists_leaf hw
      obtain ⟨segments, htext, hrest⟩ := moreSegments_cases first.token.text first.token ts
      rw [Option.some.inj h] at htext hrest
      exact ⟨⟨first, segments⟩, htext.symm, congrArg (first.token :: ·) hrest⟩
    · cases h

theorem dottedName?_eq_none_iff {ts : List Token} :
    dottedName? ts = none ↔ ∀ k ∈ ts.head?, k.kind ≠ .word := by
  cases ts with
  | nil => exact ⟨fun _ k hk => absurd hk (Option.not_mem_none k), fun _ => rfl⟩
  | cons k ts =>
    simp only [dottedName?, List.head?_cons, Option.mem_some, forall_eq']
    split
    · rename_i hk
      exact ⟨fun h => absurd h (Option.some_ne_none _), fun h => absurd hk h⟩
    · rename_i hk
      exact ⟨fun _ => hk, fun _ => rfl⟩

/-- The bracket that closes `depth + 1` open ones comes behind the one that closes the innermost. -/
theorem closing?_add (o c : TokenKind) (inner depth : Nat) (ts : List Token) :
    closing? o c (inner + (depth + 1)) ts =
      (closing? o c inner ts).bind fun r => closing? o c depth r.2 := by
  fun_induction closing? o c inner ts with
  | case1 => rfl
  | case2 inner t ts ho ih => rw [closing?_opening ho, ← ih, Nat.add_right_comm]
  | case3 t ts ho hc =>
    rw [Nat.zero_add]
    simp only [closing?, if_neg ho, if_pos hc, Option.bind_some]
  | case4 t ts ho hc inner ih =>
    rw [← ih, Nat.succ_add]
    simp only [closing?, if_neg ho, if_pos hc]
  | case5 inner t ts ho hc ih => rw [closing?_other ho hc, ← ih]

/-- Up to its closing bracket a group is balanced. -/
theorem closing?_cases {o c : TokenKind} {ts rest : List Token} {k : Token}
    (h : closing? o c 0 ts = some (k, rest)) :
    ∃ inner, Balanced o c inner ∧ k.kind = c ∧ ts = inner ++ k :: rest := by
  generalize hn : ts.length = n
  induction n using Nat.strongRecOn generalizing ts k rest with
  | ind n ih =>
    subst hn
    cases ts with
    | nil => cases h
    | cons t ts =>
      by_cases ho : t.kind = o
      · -- a group inside: its own closing bracket comes first
        rw [closing?_opening ho, closing?_add o c 0 0] at h
        obtain ⟨⟨b, us⟩, hb, hus⟩ := Option.bind_eq_some_iff.1 h
        obtain ⟨inner, hinner, hkind, rfl⟩ := ih _ (Nat.lt_succ_self _) hb rfl
        have hlt : us.length < (t :: (inner ++ b :: us)).length := by
          simp only [List.length_cons, List.length_append]
          omega
        obtain ⟨more, hmore, hk, rfl⟩ := ih _ hlt hus rfl
        refine ⟨t :: (inner ++ b :: more), .group ho hinner hkind hmore, hk, ?_⟩
        simp only [List.cons_append, List.append_assoc]
      · by_cases hc : t.kind = c
        · simp only [closing?, if_neg ho, if_pos hc] at h
          obtain ⟨rfl, rfl⟩ := Prod.mk.inj (Option.some.inj h)
          exact ⟨[], .nil, hc, rfl⟩
        · rw [closing?_other ho hc] at h
          obtain ⟨inner, hinner, hk, rfl⟩ := ih _ (Nat.lt_succ_self _) h rfl
          exact ⟨t :: inner, .plain ho hc hinner, hk, rfl⟩

/-- Behind an `@` a name was read, and arguments if there were any, unless no name follows or the
tokens end. -/
theorem annotationRest_cases (ts : List Token) :
    annotationRest ts = [] ∨ (dottedName? ts = none ∧ annotationRest ts = ts) ∨
      ∃ (name : DottedName) (arguments? : Option (Group .openParen .closeParen)),
        ts = name.tokens ++ ((arguments?.map Group.tokens).getD [] ++ annotationRest ts) := by
  cases hd : dottedName? ts with
  | none => exact .inr (.inl ⟨rfl, by rw [annotationRest, hd]⟩)
  | some p =>
    obtain ⟨text, last, rest⟩ := p
    obtain ⟨name, -, hts⟩ := dottedName?_cases hd
    cases rest with
    | nil => exact .inl (by rw [annotationRest, hd])
    | cons k rest =>
      by_cases hk : k.kind = .openParen
      · have hrest : annotationRest ts =
            ((closing? .openParen .closeParen 0 rest).map (·.2)).getD [] := by
          simp only [annotationRest, hd, if_pos hk]
        cases hc : closing? .openParen .closeParen 0 rest with
        | none =>
          rw [hc] at hrest
          exact .inl hrest
        | some r =>
          obtain ⟨b, us⟩ := r
          obtain ⟨inner, hinner, hb, rfl⟩ := closing?_cases hc
          obtain ⟨opening, rfl⟩ := exists_leaf hk
          obtain ⟨closing, rfl⟩ := exists_leaf hb
          rw [hc] at hrest
          refine .inr (.inr ⟨name, some ⟨opening, inner, hinner, closing⟩, ?_⟩)
          rw [hrest, hts]
          simp [Group.tokens]
      · refine .inr (.inr ⟨name, none, ?_⟩)
        have hrest : annotationRest ts = k :: rest := by
          simp only [annotationRest, hd, if_neg hk]
        rw [hrest, hts]
        rfl

/-! ## Package statements -/

/-- An annotation before a package statement: its name behind an `@`, before which more of these may
stand, and its arguments. -/
structure AnnotationUse where
  strays : List (Leaf .at)
  sign : Leaf .at
  name : DottedName
  arguments? : Option (Group .openParen .closeParen)

def AnnotationUse.tokens (a : AnnotationUse) : List Token :=
  a.strays.map Leaf.token ++
    a.sign.token :: (a.name.tokens ++ (a.arguments?.map Group.tokens).getD [])

theorem AnnotationUse.starts (a : AnnotationUse) : Starts a.tokens := by
  obtain ⟨strays, sign, name, arguments?⟩ := a
  cases strays with
  | nil => exact starts_of_at rfl _
  | cons s strays => exact starts_of_at rfl _

theorem AnnotationUse.packageStatement?_append (a : AnnotationUse) {ts : List Token}
    (h : Starts ts) : packageStatement? (a.tokens ++ ts) = packageStatement? ts := by
  obtain ⟨strays, sign, name, arguments?⟩ := a
  induction strays with
  | nil =>
    have hrest := annotationRest_tokens name arguments? h
    rw [← List.append_assoc] at hrest
    exact (packageStatement?_at _ rfl).trans (congrArg packageStatement? hrest)
  | cons s strays ih =>
    rw [← ih]
    refine (packageStatement?_at _ rfl).trans (congrArg packageStatement? ?_)
    -- no name follows an `@` that another one follows
    have hnone : dottedName? (AnnotationUse.tokens ⟨strays, sign, name, arguments?⟩ ++ ts) = none := by
      refine dottedName?_eq_none_iff.2 fun k hk => ?_
      cases strays with
      | nil => obtain rfl := Option.some.inj hk; exact nofun
      | cons s' strays => obtain rfl := Option.some.inj hk; exact nofun
    show annotationRest (AnnotationUse.tokens ⟨strays, sign, name, arguments?⟩ ++ ts) = _
    rw [annotationRest, hnone]

theorem packageBehind?_isSome_iff {start : Nat} {ts : List Token}
    (hwords : ∀ k ∈ ts, k.kind = .word → isIdentifier k.text = true) :
    (packageBehind? start ts).isSome = true ↔ ∃ name rest, ts = name :: rest ∧ name.kind = .word := by
  rw [Option.isSome_iff_exists]
  constructor
  · rintro ⟨p, h⟩
    obtain ⟨text, last, rest, hname, -⟩ := packageBehind?_eq_some_iff.1 h
    obtain ⟨name, -, rfl⟩ := dottedName?_cases hname
    exact ⟨name.first.token, _, rfl, rfl⟩
  · rintro ⟨k, us, rfl, hk⟩
    have hsome : dottedName? (k :: us) = some (moreSegments k.text k us) := by
      rw [dottedName?, if_pos hk]
    obtain ⟨name, htext, hts⟩ := dottedName?_cases hsome
    have hdotted : isDotted name.text = true :=
      DottedName.isDotted_text fun l hl => hwords l (hts ▸ List.mem_append_left _ hl)
    rw [htext] at hdotted
    have hparse := PackageName.parse?_text (p := ⟨_⟩) (.inr hdotted)
    exact ⟨⟨_, _⟩, packageBehind?_eq_some_iff.2 ⟨_, _, _, hsome, hparse, rfl⟩⟩

/-- Tokens start with a package statement exactly if they are annotations, the word `package` and a
word, and go on with any tokens. -/
theorem packageStatement?_isSome_iff {ts : List Token}
    (hwords : ∀ k ∈ ts, k.kind = .word → isIdentifier k.text = true) :
    (packageStatement? ts).isSome = true ↔ ∃ (as : List AnnotationUse) (word name : Token)
      (rest : List Token), ts = as.flatMap AnnotationUse.tokens ++ word :: name :: rest ∧
        word.isWord "package" = true ∧ name.kind = .word := by
  constructor
  · intro h
    generalize hn : ts.length = n
    induction n using Nat.strongRecOn generalizing ts with
    | ind n ih =>
      subst hn
      cases ts with
      | nil => rw [packageStatement?] at h; cases h
      | cons t ts =>
        obtain ⟨-, hts⟩ := List.forall_mem_cons.1 hwords
        by_cases hat : t.kind = .at
        · obtain ⟨sign, rfl⟩ := exists_leaf hat
          rw [packageStatement?_at ts hat] at h
          have hsuffix := annotationRest_suffix ts
          obtain ⟨as, word, name, rest, hrest, hword, hname⟩ :=
            ih _ (Nat.lt_succ_of_le hsuffix.length_le) (fun k hk => hts k (hsuffix.subset hk)) h rfl
          rcases annotationRest_cases ts with hnil | ⟨hnone, hself⟩ | ⟨n, arguments?, heq⟩
          · rw [hnil, packageStatement?] at h
            cases h
          · -- another annotation follows, since a word would be the name of this one
            rw [hself] at hrest
            subst hrest
            cases as with
            | nil =>
              have hkind : word.kind = .word := by
                rw [Token.isWord, Bool.and_eq_true] at hword
                exact of_decide_eq_true hword.1
              exact absurd hkind (dottedName?_eq_none_iff.1 hnone word rfl)
            | cons a as =>
              exact ⟨⟨sign :: a.strays, a.sign, a.name, a.arguments?⟩ :: as, word, name, rest,
                rfl, hword, hname⟩
          · refine ⟨⟨[], sign, n, arguments?⟩ :: as, word, name, rest, ?_, hword, hname⟩
            rw [heq, hrest, List.flatMap_cons, AnnotationUse.tokens]
            simp only [List.map_nil, List.nil_append, List.cons_append, List.append_assoc]
        · by_cases hword : t.isWord "package" = true
          · rw [packageStatement?_word ts hword, packageBehind?_isSome_iff hts] at h
            obtain ⟨name, rest, rfl, hname⟩ := h
            exact ⟨[], t, name, rest, rfl, hword, hname⟩
          · rw [packageStatement?, if_neg hat, if_neg hword] at h
            cases h
  · rintro ⟨as, word, name, rest, rfl, hword, hname⟩
    induction as with
    | nil =>
      obtain ⟨-, hrest⟩ := List.forall_mem_cons.1 hwords
      rw [List.flatMap_nil, List.nil_append, packageStatement?_word _ hword]
      exact (packageBehind?_isSome_iff hrest).2 ⟨name, rest, rfl, hname⟩
    | cons a as ih =>
      rw [List.flatMap_cons, List.append_assoc] at hwords ⊢
      have hkind : word.kind = .word := by
        rw [Token.isWord, Bool.and_eq_true] at hword
        exact of_decide_eq_true hword.1
      have hstarts : Starts (as.flatMap AnnotationUse.tokens ++ word :: name :: rest) :=
        starts_flatMap (fun a _ => a.starts) (starts_of_word hkind _)
      rw [a.packageStatement?_append hstarts]
      exact ih fun k hk => hwords k (List.mem_append_right _ hk)

/-- The line that states a package. -/
def packageLine (p : PackageName) : Text := "package " ++ p.text ++ "\n"

/-- The tokens of a text that states a package in its first line. -/
theorem tokens_packageLine {p : PackageName} (hp : isDotted p.text = true) (rest : Text) :
    ∃ name : DottedName, name.text = p.text ∧ tokens (packageLine p ++ rest) =
      ⟨.word, 0, "package"⟩ ::
        (name.tokens ++ (tokens rest).map (Token.shift (bytes (packageLine p)))) := by
  obtain ⟨name, htext, htokens, -⟩ := exists_dottedName hp 8
  have hline : packageLine p ++ rest = ("package" : Text) ++ ' ' :: (p.text ++ '\n' :: rest) := by
    unfold packageLine
    rw [List.append_assoc, List.append_assoc]
    rfl
  have hwidth : bytes (packageLine p) = 8 + bytes p.text + 1 := by
    unfold packageLine
    rw [bytes_append, bytes_append]
    rfl
  have hbreak : ∀ y ∈ ('\n' :: rest).head?, isIdentContinue y = false := by
    intro y hy
    obtain rfl : '\n' = y := Option.some.inj hy
    decide
  have hblank : pieces ('\n' :: rest) = ⟨.blank, ['\n']⟩ :: pieces rest := by
    rw [pieces, firstPiece_blank (by decide)]
  refine ⟨name, htext, ?_⟩
  rw [hline, tokens, pieces_word_space (by decide), pieces_dotted hp hbreak, hblank]
  show _ :: place 8 _ = _
  rw [place_append, htokens, flatten_pieces, hwidth]
  exact congrArg (fun ts => _ :: (name.tokens ++ ts)) (place_eq_map _ rest)

end Source

open Source

/-- The package that the first line of a text states is its package, unless the name goes on. -/
theorem packageOf?_line {p : PackageName} (hp : isDotted p.text = true) {rest : Text}
    (hrest : ∀ k ∈ (tokens rest).head?, k.kind ≠ .dot) :
    (packageOf? (packageLine p ++ rest)).map (·.name) = some p := by
  obtain ⟨name, htext, htokens⟩ := tokens_packageLine hp rest
  have hends : EndsName ((tokens rest).map (Token.shift (bytes (packageLine p)))) := by
    intro dot word us hus hdot
    cases htok : tokens rest with
    | nil => rw [htok] at hus; cases hus
    | cons k ks =>
      rw [htok] at hus hrest
      obtain ⟨rfl, -⟩ := List.cons.inj hus
      exact absurd hdot (hrest k rfl)
  obtain ⟨last, hname⟩ := name.dottedName?_tokens hends
  rw [packageOf?, htokens, packageStatement?_word _ (by decide), packageBehind?, hname, htext]
  simp [PackageName.parse?_text (.inr hp)]

/-- **Names are tokens.** An identifier is a text that is a single word, and the name of a class is read
from a text that is, but for blanks around it, words with single dots between them and no gaps. So a
package statement is read wherever the word `package` and another word stand behind nothing but
annotations, and a package that was read is read again from a file that states it in its first line. -/
theorem names_are_tokens :
    (∀ s, isIdentifier s = true ↔ tokens s = [⟨.word, 0, s⟩]) ∧
    (∀ s, (QualifiedName.parse? s).isSome = true ↔
      (∃ name : DottedName, tokens (trim s) = name.tokens) ∧
        Tiles 0 (tokens (trim s)) (bytes (trim s))) ∧
    (∀ t, (packageOf? t).isSome = true ↔ ∃ (as : List AnnotationUse) (word name : Token)
      (rest : List Token), tokens t = as.flatMap AnnotationUse.tokens ++ word :: name :: rest ∧
        word.isWord "package" = true ∧ name.kind = .word) ∧
    ∀ t p rest, PackageName.parse? t = some p → p ≠ .default →
      (∀ k ∈ (tokens rest).head?, k.kind ≠ .dot) →
        (packageOf? ("package " ++ p.text ++ "\n" ++ rest)).map (·.name) = some p := by
  refine ⟨fun s => isIdentifier_iff_tokens, fun s => ?_, fun t => ?_, fun t p rest hp hne hrest => ?_⟩
  · rw [← isDotted_iff_tokens, QualifiedName.parse?]
    split
    · rename_i h; exact ⟨fun _ => h, fun _ => rfl⟩
    · rename_i h; exact ⟨nofun, fun hd => absurd hd h⟩
  · exact packageStatement?_isSome_iff fun k => isIdentifier_of_mem_tokens
  · exact packageOf?_line ((PackageName.parse?_eq_some_iff.1 hp).2.resolve_left hne) hrest

theorem names_are_tokens_marked :
    let p : PackageName := ⟨"com.cafe\u0301"⟩
    let rest : Text := "/* . */ ; .x"
    (PackageName.parse? "\u3000com.cafe\u0301" = some p ∧ p ≠ .default ∧
      ∀ k ∈ (tokens rest).head?, k.kind ≠ .dot) ∧
    (packageOf? ("package " ++ p.text ++ "\n" ++ rest)).map (·.name) = some p ∧
      tokens "cafe\u0301" = [⟨.word, 0, "cafe\u0301"⟩] := by
  intro p rest
  have hp : PackageName.parse? "\u3000com.cafe\u0301" = some p := by decide +kernel
  have hrest : ∀ k ∈ (tokens rest).head?, k.kind ≠ .dot := by decide +kernel
  obtain ⟨hword, -, -, hline⟩ := names_are_tokens
  exact ⟨⟨hp, by decide, hrest⟩, hline _ p rest hp (by decide) hrest,
    (hword "cafe\u0301").1 (by decide +kernel)⟩

end QuickFix
