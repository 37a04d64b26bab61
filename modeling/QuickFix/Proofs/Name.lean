import QuickFix.Name

/-!
# Names at their last dot

The package of a class is what stands before the last dot of its name
(`QualifiedName.package?_eq_some_iff`).
-/

namespace QuickFix

namespace Text

/-- A text with a separator at its last one. -/
theorem exists_last_of_mem {sep : Char} {t : Text} (h : sep ∈ t) :
    ∃ a b, t = a ++ sep :: b ∧ sep ∉ b := by
  obtain ⟨b, a, hba, hb⟩ := List.eq_append_cons_of_mem (List.mem_reverse.2 h)
  refine ⟨a.reverse, b.reverse, ?_, by simpa using hb⟩
  rw [← List.reverse_reverse t, hba]
  simp

end Text

namespace QualifiedName

open Text

theorem split?_eq_some_iff {q : QualifiedName} {a b : Text} :
    q.split? = some (a, b) ↔ q.text = a ++ '.' :: b ∧ '.' ∉ b := by
  have cut : ∀ {a b : Text}, q.text = a ++ '.' :: b → '.' ∉ b → q.split? = some (a, b) := by
    intro a b hq hb
    have hr : q.text.reverse = b.reverse ++ '.' :: a.reverse := by simp [hq]
    have hb' : '.' ∉ b.reverse := by simpa using hb
    rw [split?, hr, List.splitOn_append_cons_self_of_not_mem hb']
    cases hs : a.reverse.splitOn '.' with
    | nil => exact absurd hs (List.splitOn_ne_nil '.' a.reverse)
    | cons p ps =>
      show some ((join ['.'] (p :: ps)).reverse, b.reverse.reverse) = some (a, b)
      rw [← hs, join, List.intercalate_splitOn, List.reverse_reverse, List.reverse_reverse]
  constructor
  · intro h
    by_cases hq : '.' ∈ q.text
    · obtain ⟨a', b', ht, hb⟩ := exists_last_of_mem hq
      rw [cut ht hb] at h
      cases h
      exact ⟨ht, hb⟩
    · have hr : '.' ∉ q.text.reverse := by simpa using hq
      rw [split?, List.splitOn_eq_singleton hr] at h
      cases h
  · rintro ⟨hq, hb⟩
    exact cut hq hb

theorem package?_eq_some_iff {q : QualifiedName} {p : PackageName} :
    q.package? = some p ↔ ∃ simple, q.text = p.text ++ '.' :: simple ∧ '.' ∉ simple := by
  rw [package?, Option.map_eq_some_iff]
  constructor
  · rintro ⟨⟨a, b⟩, h, rfl⟩
    exact ⟨b, split?_eq_some_iff.1 h⟩
  · rintro ⟨b, h⟩
    exact ⟨(p.text, b), split?_eq_some_iff.2 h, rfl⟩

/-- The package of a class is found again in its name. -/
theorem package?_qualify {p : PackageName} {simple : Text} (h : '.' ∉ simple) :
    (p.qualify simple).package? = if p.isDefault then none else some p := by
  unfold PackageName.qualify
  cases hd : p.isDefault with
  | true =>
    have hr : '.' ∉ simple.reverse := by simpa using h
    simp only [if_true, package?, split?, List.splitOn_eq_singleton hr, Option.map_none]
  | false =>
    rw [if_neg Bool.false_ne_true, if_neg Bool.false_ne_true]
    refine package?_eq_some_iff.2 ⟨simple, ?_, h⟩
    rw [List.append_assoc]
    rfl

theorem isDotted_qualify {p : PackageName} {simple : Text} (hs : isIdentifier simple = true)
    (hdot : '.' ∉ simple) (hp : p.isDefault = false → isDotted p.text = true) :
    isDotted (p.qualify simple).text = true := by
  have hsimple : isDotted simple = true := by
    rw [isDotted, List.splitOn_eq_singleton hdot, List.all_cons, hs]
    rfl
  unfold PackageName.qualify
  cases hd : p.isDefault with
  | true => exact hsimple
  | false =>
    have htext : p.text ++ ['.'] ++ simple = p.text ++ '.' :: simple := List.append_assoc ..
    have hpackage := hp hd
    unfold isDotted at hsimple hpackage ⊢
    simp only [htext, List.splitOn_append_cons_self, List.all_append, hsimple, hpackage, Bool.and_self,
      Bool.false_eq_true, if_false]

end QualifiedName

namespace PackageName

theorem isDefault_iff {p : PackageName} : p.isDefault = true ↔ p = .default := by
  obtain ⟨text⟩ := p
  rw [isDefault, List.isEmpty_iff, default, mk.injEq]

theorem isDotted_of_parse? {t : Text} {p : PackageName} (h : parse? t = some p)
    (hd : p.isDefault = false) : Text.isDotted p.text = true := by
  unfold parse? at h
  simp only at h
  split at h
  · obtain rfl := Option.some.inj h
    cases hd
  · split at h
    · rename_i ht
      obtain rfl := Option.some.inj h
      exact ht
    · cases h

end PackageName

end QuickFix
