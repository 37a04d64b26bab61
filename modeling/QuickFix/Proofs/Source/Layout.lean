import QuickFix.Proofs.Source.PackageStatement
import QuickFix.Proofs.Source.Partition

/-!
# Layout and literals do not count

Two texts whose tokens are alike but for what their literals say (`Token.Alike`) have the same
declarations at the same places among the tokens (`SamePlace`), and package statements of the same
name: `declarations_alike`. Blanks between tokens, comments and the contents of literals do not bear
on either.
-/

namespace QuickFix

namespace Source

/-- The tokens are of one kind, and say the same unless they are literals. -/
def Token.Alike (k l : Token) : Prop := k.kind = l.kind ∧ (k.kind ≠ .literal → k.text = l.text)

instance (k l : Token) : Decidable (k.Alike l) := inferInstanceAs (Decidable (_ ∧ _))

/-- The offsets are at the same end of the tokens with the same number, or both at the end of the
text. -/
def SamePlace (t u : Text) (m n : Nat) : Prop :=
  (∃ (i : Nat) (k l : Token), (tokens t)[i]? = some k ∧ (tokens u)[i]? = some l ∧
      (m = k.start ∧ n = l.start ∨ m = k.stop ∧ n = l.stop)) ∨
    m = Text.bytes t ∧ n = Text.bytes u

/-- What starts with a quote is none of the signs that statements look for. -/
theorem not_mem_signs_of_literal {t : Text} {k : Token} (hk : k ∈ tokens t)
    (hl : k.kind = .literal) : k.text ∉ signs := by
  obtain ⟨q, u, hu, hq⟩ := (parts_tokens t).literal hk hl
  have hsigns : ∀ s ∈ signs, s.head? ≠ some '"' ∧ s.head? ≠ some '\'' := by decide
  intro hm
  obtain ⟨hdouble, hsingle⟩ := hsigns _ hm
  rw [hu] at hdouble hsingle
  rcases hq with rfl | rfl
  · exact hdouble rfl
  · exact hsingle rfl

/-- Alike tokens are related, each to the one with the same number. -/
theorem tokens_rel {t u : Text} (h : List.Forall₂ Token.Alike (tokens t) (tokens u)) :
    List.Forall₂ (Token.Rel (SamePlace t u)) (tokens t) (tokens u) := by
  rw [List.forall₂_iff_get] at h ⊢
  refine ⟨h.1, fun i hi hj => ?_⟩
  obtain ⟨hkind, htext⟩ := h.2 i hi hj
  have hk := List.getElem?_eq_getElem hi
  have hl := List.getElem?_eq_getElem hj
  refine ⟨hkind, ?_, .inl ⟨i, _, _, hk, hl, .inl ⟨rfl, rfl⟩⟩, .inl ⟨i, _, _, hk, hl, .inr ⟨rfl, rfl⟩⟩⟩
  by_cases hlit : ((tokens t).get ⟨i, hi⟩).kind = .literal
  · exact .inr ⟨hlit, not_mem_signs_of_literal (List.get_mem ..) hlit,
      not_mem_signs_of_literal (List.get_mem ..) (hkind ▸ hlit)⟩
  · exact .inl (htext hlit)

end Source

open Source

/-- **Layout and literals do not count**: texts with alike tokens have the same declarations at the
same places among the tokens, and the same package. -/
theorem declarations_alike {t u : Text} (h : List.Forall₂ Token.Alike (tokens t) (tokens u)) :
    List.Forall₂ (Declaration.Rel (SamePlace t u)) (declarations t) (declarations u) ∧
      (packageOf? t).map (·.name) = (packageOf? u).map (·.name) := by
  have hrel := tokens_rel h
  exact ⟨Scanner.run_rel (.inr ⟨rfl, rfl⟩) (.start hrel), packageStatement?_rel hrel⟩

/-- Comments and literals that hold keywords and braces, and a body that is not closed. -/
theorem declarations_alike_commented :
    let t : Text := "/* class X */ @S(\"class \x7b\") package a.b\npublic // enum\nclass B(C)\x7b"
    let u : Text := "@S('\x7d') package a . b public class\r\nB ( /**/ C )\x7b\n\n"
    List.Forall₂ Token.Alike (tokens t) (tokens u) ∧
      List.Forall₂ (Declaration.Rel (SamePlace t u)) (declarations t) (declarations u) ∧
      (declarations t).map (·.name) = [['B']] ∧
      (packageOf? u).map (·.name) = PackageName.parse? "a.b" := by
  intro t u
  have h : List.Forall₂ Token.Alike (tokens t) (tokens u) := by decide +kernel
  obtain ⟨hd, hp⟩ := declarations_alike h
  exact ⟨h, hd, by decide +kernel, hp ▸ (by decide +kernel)⟩

end QuickFix
