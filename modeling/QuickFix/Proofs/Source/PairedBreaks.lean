import Mathlib.Data.List.Chain
import QuickFix.Proofs.Source.ImportLines
import QuickFix.Proofs.Source.Independence

/-!
# Edits of texts with carriage returns

In a text with line breaks, all of which are a carriage return and a line feed (`Text.Paired`), an edit
brings in breaks of this kind only, and no edit cuts one in two: each puts its text in where no line feed
follows, or takes away all blanks up to there.

* `Text.Paired.exchange`: what that comes to for a stretch of a text;
* `Declaration.visibilityEdit_paired`, `Declaration.constructorEdit_paired`, `importEdit?_paired`: the
  three edits, put together in `edits_keep_pairs`.
-/

namespace QuickFix

open Source

namespace Text

/-- Right before every line feed stands a carriage return. -/
structure Paired (t : Text) : Prop where
  head : '\n' ∉ t.head?
  chain : t.IsChain fun c d => d = '\n' → c = '\r'

instance (t : Text) : Decidable (Paired t) :=
  decidable_of_iff ('\n' ∉ t.head? ∧ t.IsChain fun c d => d = '\n' → c = '\r')
    ⟨fun h => ⟨h.1, h.2⟩, fun h => ⟨h.head, h.chain⟩⟩

variable {a b m n t : Text}

theorem paired_of_not_mem (h : '\n' ∉ t) : Paired t where
  head hn := h (List.mem_of_head? hn)
  chain := List.Pairwise.isChain (List.pairwise_iff_forall_sublist.2 fun hs hd =>
    absurd (hs.subset (hd ▸ List.mem_cons_of_mem _ List.mem_cons_self)) h)

namespace Paired

theorem append (ha : Paired a) (hb : Paired b) : Paired (a ++ b) where
  head hn := by
    rw [List.head?_append] at hn
    rcases Option.or_eq_some_iff.1 hn with hn | ⟨-, hn⟩
    · exact ha.head hn
    · exact hb.head hn
  chain := ha.chain.append hb.chain fun c _ d hd hn => absurd (hn ▸ hd) hb.head

theorem left (h : Paired (a ++ b)) : Paired a where
  head hn := h.head (by rw [List.head?_append, hn]; rfl)
  chain := h.chain.left_of_append

theorem right (h : Paired (a ++ b)) (hb : '\n' ∉ b.head?) : Paired b := ⟨hb, h.chain.right_of_append⟩

/-- No line feed follows anything but a carriage return. -/
theorem not_mem_head? (h : Paired (a ++ b)) (ha : '\r' ∉ a.getLast?) : '\n' ∉ b.head? := by
  intro hn
  cases hc : a.getLast? with
  | none =>
    obtain rfl := List.getLast?_eq_none_iff.1 hc
    exact h.head hn
  | some c =>
    obtain rfl := (List.isChain_append.1 h.chain).2.2 c hc '\n' hn rfl
    exact ha hc

/-- A stretch that no line feed follows may be exchanged for any text of this kind. -/
theorem exchange (h : Paired (a ++ (m ++ b))) (hn : Paired n) (hb : '\n' ∉ b.head?) :
    Paired (a ++ (n ++ b)) := by
  rw [← List.append_assoc] at h
  exact h.left.left.append (hn.append (h.right hb))

end Paired

end Text

open Text

variable {t r : Text} {d : Declaration} {e : Edit}

namespace Source

/-- Such a text with line breaks is given line breaks of this kind. -/
theorem lineEnd_of_paired (ht : Paired t) (hn : '\n' ∈ t) : lineEnd t = ['\r', '\n'] := by
  obtain ⟨a, b, rfl⟩ := List.append_of_mem hn
  have hlast : '\r' ∈ a.getLast? := by
    by_contra hlast
    exact ht.not_mem_head? hlast rfl
  obtain ⟨u, rfl⟩ := List.getLast?_eq_some_iff.1 hlast
  exact if_pos (contains_iff.2 ⟨u, b, by simp⟩)

theorem paired_lineEnd (ht : Paired t) (hn : '\n' ∈ t) : Paired (lineEnd t) := by
  rw [lineEnd_of_paired ht hn]
  decide

/-- A token does not start with a line feed. -/
theorem newline_not_mem_head?_token {k : Token} (hk : k ∈ tokens t) (z : Text) :
    '\n' ∉ (k.text ++ z).head? := by
  obtain ⟨b, c, u, hu, hf⟩ := endsBefore_of_mem_tokens hk
  rw [show k.text = c :: u from hu]
  intro hn
  obtain rfl : c = '\n' := Option.some.inj hn
  rw [firstPiece_blank (by decide)] at hf
  cases hf

theorem return_not_mem_getLast? {a w : Text} (hw : isIdentifier w = true) :
    '\r' ∉ (a ++ w).getLast? := by
  intro hr
  have hne : w ≠ [] := by
    rintro rfl
    cases hw
  rw [List.getLast?_append_of_ne_nil _ hne] at hr
  exact not_mem_of_isIdentifier hw (by decide) (List.mem_of_getLast? hr)

end Source

/-! ## The edits of a declaration -/

namespace Declaration

theorem visibilityEdit_paired {v : Visibility} (ht : Paired t) (hd : d ∈ declarations t)
    (he : d.visibilityEdit v t = .ok (some e)) : ∃ r, e.apply t = .ok r ∧ Paired r := by
  obtain ⟨i, hi⟩ := List.getElem?_of_mem hd
  have hne : d.visibility ≠ v := by
    intro heq
    rw [visibilityEdit_of_eq t heq] at he
    cases he
  have word : ∀ {w}, v.keyword? = some w → Paired w := fun hw =>
    paired_of_not_mem (not_mem_of_isIdentifier (Visibility.isIdentifier_keyword hw) (by decide))
  obtain ⟨ds, -, p, hp | hp⟩ := exists_approach hi
  · -- a word and a space before the token
    obtain ⟨w, hw⟩ := Visibility.exists_keyword (hp.visibility ▸ hne.symm)
    obtain ⟨e', he', hr⟩ := hp.edit hne hw
    obtain rfl : e = e' := by simpa [he] using he'
    have hmem : p.token ∈ tokens t := by rw [p.tokens_eq]; simp
    have htext := p.text_eq ▸ ht
    have hput := htext.exchange (m := []) ((word hw).append (b := [' ']) (by decide))
      (newline_not_mem_head?_token hmem p.after)
    rw [List.append_assoc] at hput
    exact ⟨_, hr, hput⟩
  · have htext := p.text_eq ▸ ht
    have hid := p.isIdentifier_token hp.token
    by_cases hv : v = .package
    · -- the word goes, and all blanks behind it
      subst hv
      obtain ⟨hws, hb⟩ := of_takeWhile_dropWhile isBlank p.after
      have hafter : p.after = p.after.takeWhile isBlank ++ p.after.dropWhile isBlank :=
        List.takeWhile_append_dropWhile.symm
      generalize p.after.takeWhile isBlank = ws, p.after.dropWhile isBlank = b at hafter hws hb
      have hedit := visibilityEdit_remove_blanks hne hp.visibilitySpan? hws hb
      have happly := Edit.apply_between p.before (p.token.text ++ ws) [] b
      rw [hafter, ← List.append_assoc p.token.text] at htext
      rw [List.append_assoc, ← hafter, ← p.text_eq] at happly
      rw [← hafter, ← p.text_eq, he] at hedit
      obtain rfl := Option.some.inj (Except.ok.inj hedit)
      refine ⟨_, happly, htext.exchange (paired_of_not_mem List.not_mem_nil) fun hn => ?_⟩
      cases hb _ hn
    · -- a word for a word
      obtain ⟨w, hw⟩ := Visibility.exists_keyword hv
      obtain ⟨e', he', hr⟩ := hp.edit hne hw
      obtain rfl : e = e' := by simpa [he] using he'
      refine ⟨_, hr, htext.exchange (word hw) ?_⟩
      rw [← List.append_assoc] at htext
      exact htext.not_mem_head? (return_not_mem_getLast? hid)

theorem paired_constructorText {name newline : Text} (before : Text)
    (hname : isIdentifier name = true) (hnewline : Paired newline) :
    Paired (constructorText name (lastIndent before ++ "    ") newline) := by
  have hindent : Paired (lastIndent before ++ "    ") := by
    refine paired_of_not_mem fun hn => ?_
    rcases List.mem_append.1 hn with hn | hn
    · have hindent := List.all_eq_true.1 List.all_takeWhile _ hn
      simp at hindent
    · exact absurd hn (by decide)
  have hname : Paired name := paired_of_not_mem (not_mem_of_isIdentifier hname (by decide))
  unfold constructorText
  refine .append (.append (.append (.append (.append (.append (.append hindent ?_) hname) ?_)
    hnewline) hindent) ?_) hnewline <;> exact paired_of_not_mem (by decide)

theorem constructorEdit_paired (ht : Paired t) (hn : '\n' ∈ t) (hd : d ∈ declarations t)
    (he : d.constructorEdit t = .ok (some e)) : ∃ r, e.apply t = .ok r ∧ Paired r := by
  obtain ⟨body, hb⟩ : ∃ body, d.bodySpan? = some body := by
    cases hb : d.bodySpan? with
    | some body => exact ⟨body, rfl⟩
    | none =>
      rw [constructorEdit, hb] at he
      cases he
  obtain ⟨xs, brace, zs, htok, hbrace, hstart, -, ⟨k, hk, hspan⟩, -⟩ := exists_body_of_mem hd hb
  obtain ⟨before, after, hcut⟩ := exists_cutAt_of_mem hk
  rw [hspan] at hcut
  obtain ⟨a, b, htext, -, hbstart, -⟩ := exists_split_of_tokens htok
  rw [text_of_openBrace (htok ▸ List.mem_append_right xs List.mem_cons_self) hbrace] at htext
  obtain ⟨e', he', hr⟩ := constructorEdit_apply hb hcut htext (hstart.symm.trans hbstart)
  obtain rfl : e = e' := by simpa [he] using he'
  refine ⟨_, hr, ?_⟩
  have hnewline := paired_lineEnd ht hn
  have htext : t = (a ++ ['\x7b']) ++ b := by rw [htext]; simp
  have hbrace : '\n' ∉ b.head? := by
    rw [htext] at ht
    exact ht.not_mem_head? (by simp)
  -- what is left of the text behind the brace does not start with a line feed
  have hrest : Paired ((after? (lineEnd t) b).getD b) := by
    rw [htext] at ht
    cases hafter : after? (lineEnd t) b with
    | none => exact ht.right hbrace
    | some b' =>
      obtain rfl := after?_eq_some_iff.1 hafter
      rw [← List.append_assoc] at ht
      refine ht.right (ht.not_mem_head? ?_)
      rw [List.getLast?_append_of_ne_nil _ (lineEnd_ne_nil t)]
      intro hr
      cases getLast?_lineEnd t _ hr
  have hlead : Paired (a ++ ['\x7b']) := by
    rw [htext] at ht
    exact ht.left
  have hput := hlead.append (hnewline.append
    ((paired_constructorText before (isIdentifier_name hd) hnewline).append hrest))
  rw [List.append_assoc, List.singleton_append] at hput
  exact hput

end Declaration

/-! ## The edit that adds an import -/

theorem importEdit?_paired {q : QualifiedName} (ht : Paired t) (hn : '\n' ∈ t)
    (hq : isDotted q.text = true) (he : importEdit? q t = some e) :
    ∃ r, e.apply t = .ok r ∧ Paired r := by
  obtain ⟨r, above, below, _, _, hr, hrows, -⟩ := exists_of_importEdit? hq he
  have hlineEnd : ∀ p, Paired (lineEndIf t p) := by
    intro p
    cases p with
    | false => exact paired_of_not_mem (List.not_mem_nil)
    | true => exact paired_lineEnd ht hn
  have htext : Paired e.text := by
    obtain rfl := eq_of_importEdit? he
    obtain ⟨m, n, htext⟩ := importText_parts q (importPlace t) t
    have hstatement := paired_of_not_mem (newline_not_mem_importStatement hq)
    show Paired (importText q (importPlace t) t)
    rw [htext]
    exact (hlineEnd _).append ((hlineEnd m).append
      ((hstatement.append (paired_lineEnd ht hn)).append (hlineEnd n)))
  refine ⟨r, hr, ?_⟩
  rw [hrows.text_eq] at ht
  rw [hrows.result]
  rcases hrows.boundary with rfl | habove
  · exact (ht.left.append htext).append (paired_of_not_mem List.not_mem_nil)
  · refine (ht.left.append htext).append (ht.right (ht.not_mem_head? fun hc => ?_))
    cases habove _ hc

/-! ## All edits -/

/-- **Edits keep the line breaks of a text**, if it has some and each is a carriage return and a line
feed: an edit of one of its declarations or of its imports applies, and so is each line break then. -/
theorem edits_keep_pairs (ht : Paired t) (hn : '\n' ∈ t) :
    (∀ d ∈ declarations t, ∀ v e, d.visibilityEdit v t = .ok (some e) →
      ∃ r, e.apply t = .ok r ∧ Paired r) ∧
    (∀ d ∈ declarations t, ∀ e, d.constructorEdit t = .ok (some e) →
      ∃ r, e.apply t = .ok r ∧ Paired r) ∧
    ∀ x q e, QualifiedName.parse? x = some q → importEdit? q t = some e →
      ∃ r, e.apply t = .ok r ∧ Paired r :=
  ⟨fun _ hd _ _ he => Declaration.visibilityEdit_paired ht hd he,
    fun _ hd _ he => Declaration.constructorEdit_paired ht hn hd he,
    fun _ _ _ hq he => importEdit?_paired ht hn (isDotted_of_parse? hq) he⟩

/-- A level whose word stands on a line of its own, a body without a line break, and a package line to
be set apart from the import. -/
theorem edits_keep_pairs_final :
    let t : Text := "package a\r\nprivate\r\n\r\nclass B \x7b\x7d"
    let d : Declaration :=
      ⟨"B", .plain, .priv, some ⟨11, 18⟩, 11, ⟨11, 32⟩, ⟨28, 29⟩, some ⟨30, 32⟩⟩
    let e₁ : Edit := ⟨⟨11, 22⟩, []⟩
    let e₂ : Edit := .insert 31 "\r\n    public B() \x7b\r\n    \x7d\r\n"
    let e₃ : Edit := .insert 11 "\r\nimport x.Y;\r\n"
    Paired t ∧ '\n' ∈ t ∧ d ∈ declarations t ∧ d.visibilityEdit .package t = .ok (some e₁) ∧
      d.constructorEdit t = .ok (some e₂) ∧ QualifiedName.parse? "x.Y" = some ⟨"x.Y"⟩ ∧
      importEdit? ⟨"x.Y"⟩ t = some e₃ ∧ ∀ e ∈ [e₁, e₂, e₃], ∃ r, e.apply t = .ok r ∧ Paired r := by
  intro t d e₁ e₂ e₃
  have hd : d ∈ declarations t := by decide +kernel
  have ht : Paired t := by decide
  have hn : '\n' ∈ t := by decide
  have h₁ : d.visibilityEdit .package t = .ok (some e₁) := by rfl
  have h₂ : d.constructorEdit t = .ok (some e₂) := by rfl
  have hq : QualifiedName.parse? "x.Y" = some ⟨"x.Y"⟩ := by decide
  have h₃ : importEdit? ⟨"x.Y"⟩ t = some e₃ := by decide +kernel
  obtain ⟨hlevel, hconstructor, himport⟩ := edits_keep_pairs ht hn
  refine ⟨ht, hn, hd, h₁, h₂, hq, h₃, ?_⟩
  simp only [List.forall_mem_cons, List.not_mem_nil, false_implies, implies_true, and_true]
  exact ⟨hlevel d hd _ _ h₁, hconstructor d hd _ h₂, himport _ _ _ hq h₃⟩

end QuickFix
