import QuickFix.Proofs.Source.ImportLines

/-!
# Names by their segments

A name is a text of identifiers with single dots between them. Reading one ignores the blanks around it,
and accepts nothing else (`QualifiedName.parse?_eq_some_iff`, `PackageName.parse?_eq_some_iff`).

* `HasSegments.splitOn_eq`: a text joined from identifiers falls apart into these;
* `trim_eq_iff`: what is left of a text without the blanks around it;
* `names_split_and_join`: a package and a simple name make a class name, from which both are read back,
  and every class name is made so.
-/

namespace QuickFix

namespace Text

/-- The text `t` consists of the identifiers `ws`, of which there is one at least, with a single dot
between neighbours. -/
structure HasSegments (t : Text) (ws : List Text) : Prop where
  ne_nil : ws ≠ []
  isIdentifier : ∀ w ∈ ws, Text.isIdentifier w = true
  join_eq : join ['.'] ws = t

theorem HasSegments.splitOn_eq {t : Text} {ws : List Text} (h : HasSegments t ws) :
    t.splitOn '.' = ws := by
  rw [← h.join_eq]
  exact List.splitOn_intercalate '.'
    (fun w hw => dot_not_mem_of_isIdentifier (h.isIdentifier w hw)) h.ne_nil

theorem hasSegments_splitOn {t : Text} (h : isDotted t = true) : HasSegments t (t.splitOn '.') where
  ne_nil := List.splitOn_ne_nil '.' t
  isIdentifier := List.all_eq_true.1 h
  join_eq := List.intercalate_splitOn '.'

theorem isDotted_iff_hasSegments {t : Text} : isDotted t = true ↔ ∃ ws, HasSegments t ws := by
  constructor
  · exact fun h => ⟨_, hasSegments_splitOn h⟩
  · rintro ⟨ws, h⟩
    rw [isDotted, h.splitOn_eq]
    exact List.all_eq_true.2 h.isIdentifier

theorem isDotted_append (a b : Text) :
    isDotted (a ++ '.' :: b) = (isDotted a && isDotted b) := by
  rw [isDotted, List.splitOn_append_cons_self, List.all_append]
  rfl

theorem isDotted_of_isIdentifier {w : Text} (h : isIdentifier w = true) : isDotted w = true := by
  rw [isDotted, List.splitOn_eq_singleton (dot_not_mem_of_isIdentifier h), List.all_cons, h]
  rfl

theorem isIdentifier_of_isDotted {w : Text} (h : isDotted w = true) (hdot : '.' ∉ w) :
    isIdentifier w = true := by
  rw [isDotted, List.splitOn_eq_singleton hdot, List.all_cons] at h
  exact (Bool.and_eq_true_iff.1 h).1

/-! ## Blanks around a text -/

/-- The text `t` is `x` with nothing but blanks before and behind it. -/
def IsPadded (x t : Text) : Prop := ∃ a b, t = a ++ x ++ b ∧ ∀ c ∈ a ++ b, isBlank c = true

theorem isPadded_trim (t : Text) : IsPadded (trim t) t := by
  let u := trimStart t
  refine ⟨t.takeWhile isBlank, (u.reverse.takeWhile isBlank).reverse, ?_, fun c hc => ?_⟩
  · have hu : u = trimEnd u ++ (u.reverse.takeWhile isBlank).reverse := by
      rw [trimEnd, dropEndWhile, ← List.reverse_append, List.takeWhile_append_dropWhile,
        List.reverse_reverse]
    have ht : t = t.takeWhile isBlank ++ u := List.takeWhile_append_dropWhile.symm
    rw [List.append_assoc]
    show t = _ ++ (trimEnd u ++ _)
    rw [← hu]
    exact ht
  · rcases List.mem_append.1 hc with hc | hc
    · exact List.all_eq_true.1 List.all_takeWhile c hc
    · exact List.all_eq_true.1 List.all_takeWhile c (List.mem_reverse.1 hc)

theorem trim_eq_iff {t x : Text} (hx : ∀ c ∈ x, isBlank c = false) :
    trim t = x ↔ IsPadded x t := by
  constructor
  · rintro rfl
    exact isPadded_trim t
  · rintro ⟨a, b, rfl, hblank⟩
    have ha : ∀ c ∈ a, isBlank c = true := fun c hc => hblank c (List.mem_append_left b hc)
    have hb : ∀ c ∈ b, isBlank c = true := fun c hc => hblank c (List.mem_append_right a hc)
    have hstart : trimStart (a ++ x ++ b) = trimStart (x ++ b) := by
      rw [trimStart, List.append_assoc, List.dropWhile_append_of_pos ha]
      rfl
    rw [trim, hstart]
    cases x with
    | nil =>
      have hnil : trimStart b = [] := by
        rw [trimStart, ← List.append_nil b, List.dropWhile_append_of_pos hb]
        rfl
      rw [List.nil_append, hnil]
      rfl
    | cons c x =>
      have hkept : trimStart (c :: x ++ b) = c :: x ++ b := by
        refine trimStart_eq_self fun d hd => ?_
        obtain rfl : c = d := Option.some.inj hd
        exact hx c List.mem_cons_self
      rw [hkept, trimEnd, dropEndWhile_append hb]
      exact dropEndWhile_eq_self fun d hd => hx d (List.mem_of_getLast? hd)

end Text

open Text

/-! ## Names that are read -/

namespace QualifiedName

theorem parse?_eq_some_iff {t : Text} {q : QualifiedName} :
    parse? t = some q ↔ IsPadded q.text t ∧ isDotted q.text = true := by
  have hread : parse? t = some q ↔ trim t = q.text ∧ isDotted q.text = true := by
    obtain ⟨u⟩ := q
    unfold parse?
    simp only [Option.ite_none_right_eq_some, Option.some.injEq, mk.injEq]
    exact ⟨fun h => ⟨h.2, h.2 ▸ h.1⟩, fun h => ⟨h.1 ▸ h.2, h.1⟩⟩
  rw [hread]
  exact and_congr_left fun hd => trim_eq_iff (isBlank_of_isDotted hd)

theorem parse?_text {q : QualifiedName} (h : isDotted q.text = true) : parse? q.text = some q :=
  parse?_eq_some_iff.2 ⟨⟨[], [], (List.append_nil _).symm, nofun⟩, h⟩

theorem simple_qualify (p : PackageName) {s : Text} (h : '.' ∉ s) : (p.qualify s).simple = s := by
  unfold PackageName.qualify
  split
  · have hr : '.' ∉ s.reverse := by simpa using h
    rw [simple, split?, List.splitOn_eq_singleton hr]
    rfl
  · have hq : p.text ++ ['.'] ++ s = p.text ++ '.' :: s := List.append_assoc ..
    rw [simple, split?_eq_some_iff.2 ⟨hq, h⟩]
    rfl

/-- A class name is its package and its simple name, put together. -/
theorem qualify_simple {q : QualifiedName} (h : isDotted q.text = true) :
    (q.package?.getD .default).qualify q.simple = q ∧ isIdentifier q.simple = true ∧
      ∀ p, q.package? = some p → isDotted p.text = true := by
  obtain ⟨t⟩ := q
  cases hs : split? ⟨t⟩ with
  | none =>
    have hdot : '.' ∉ t := by
      intro hm
      obtain ⟨a, b, hab⟩ := exists_last_of_mem hm
      rw [split?_eq_some_iff.2 hab] at hs
      cases hs
    rw [package?, simple, hs]
    refine ⟨rfl, isIdentifier_of_isDotted h hdot, fun p hp => ?_⟩
    cases hp
  | some ab =>
    obtain ⟨a, b⟩ := ab
    obtain ⟨ht, hb⟩ := split?_eq_some_iff.1 hs
    obtain rfl : t = a ++ '.' :: b := ht
    rw [isDotted_append, Bool.and_eq_true] at h
    have hne : a ≠ [] := isDotted_ne_nil h.1
    rw [package?, simple, hs]
    refine ⟨?_, isIdentifier_of_isDotted h.2 hb, ?_⟩
    · show (if a.isEmpty = true then _ else _) = _
      rw [if_neg (by simpa using hne), List.append_assoc]
      rfl
    · rintro _ ⟨⟩
      exact h.1

end QualifiedName

namespace PackageName

theorem parse?_eq_some_iff {t : Text} {p : PackageName} :
    parse? t = some p ↔ IsPadded p.text t ∧ (p = .default ∨ isDotted p.text = true) := by
  have hread : parse? t = some p ↔ trim t = p.text ∧ (p = .default ∨ isDotted p.text = true) := by
    obtain ⟨u⟩ := p
    unfold parse?
    simp only [default, mk.injEq]
    split
    · rename_i hempty
      rw [List.isEmpty_iff.1 hempty]
      simp only [Option.some.injEq, mk.injEq]
      exact ⟨fun h => ⟨h, .inl h.symm⟩, And.left⟩
    · rename_i hne
      rw [List.isEmpty_iff] at hne
      simp only [Option.ite_none_right_eq_some, Option.some.injEq, mk.injEq]
      constructor
      · exact fun h => ⟨h.2, .inr (h.2 ▸ h.1)⟩
      · rintro ⟨rfl, h⟩
        exact ⟨h.resolve_left hne, rfl⟩
  rw [hread]
  refine and_congr_left fun hp => trim_eq_iff ?_
  rcases hp with rfl | hd
  · exact fun c hc => absurd hc List.not_mem_nil
  · exact isBlank_of_isDotted hd

theorem parse?_text {p : PackageName} (h : p = .default ∨ isDotted p.text = true) :
    parse? p.text = some p :=
  parse?_eq_some_iff.2 ⟨⟨[], [], (List.append_nil _).symm, nofun⟩, h⟩

theorem segments_eq {p : PackageName} (h : isDotted p.text = true) :
    p.segments = p.text.splitOn '.' := by
  refine List.filter_eq_self.2 fun w hw => ?_
  have hw := (hasSegments_splitOn h).isIdentifier w hw
  cases w with
  | nil => cases hw
  | cons c w => rfl

end PackageName

/-- **Names split and join without loss.** A package that was read and an identifier make the name of a
class, which is read from its own text and gives the package and the identifier back; every name of a
class that was read falls apart into such a pair. What is read is, but for blanks around it, identifiers
with single dots between them, or nothing for the default package, and reads the same again. -/
theorem names_split_and_join :
    (∀ t p s, PackageName.parse? t = some p → isIdentifier s = true →
      QualifiedName.parse? (p.qualify s).text = some (p.qualify s) ∧ (p.qualify s).simple = s ∧
        (p.qualify s).package? = if p = .default then none else some p) ∧
    (∀ t q, QualifiedName.parse? t = some q →
      PackageName.parse? (q.package?.getD .default).text = some (q.package?.getD .default) ∧
        isIdentifier q.simple = true ∧ (q.package?.getD .default).qualify q.simple = q) ∧
    (∀ t q, QualifiedName.parse? t = some q ↔
      IsPadded q.text t ∧ ∃ ws, q.text.HasSegments ws) ∧
    (∀ t p, PackageName.parse? t = some p ↔
      IsPadded p.text t ∧ (p.text = [] ∨ ∃ ws, p.text.HasSegments ws)) ∧
    (∀ t q, QualifiedName.parse? t = some q → QualifiedName.parse? q.text = some q) ∧
    ∀ t p, PackageName.parse? t = some p →
      PackageName.parse? p.text = some p ∧ join ['.'] p.segments = p.text ∧
        ∀ w ∈ p.segments, isIdentifier w = true := by
  refine ⟨fun t p s hp hs => ?_, fun t q hq => ?_, fun t q => ?_, fun t p => ?_, fun t q hq => ?_,
    fun t p hp => ?_⟩
  · have hdot := dot_not_mem_of_isIdentifier hs
    refine ⟨QualifiedName.parse?_text ?_, QualifiedName.simple_qualify p hdot, ?_⟩
    · exact QualifiedName.isDotted_qualify hs hdot (PackageName.isDotted_of_parse? hp)
    · simp only [QualifiedName.package?_qualify hdot, PackageName.isDefault_iff]
  · obtain ⟨hjoin, hsimple, hpackage⟩ :=
      QualifiedName.qualify_simple (QualifiedName.parse?_eq_some_iff.1 hq).2
    refine ⟨PackageName.parse?_text ?_, hsimple, hjoin⟩
    cases hp : q.package? with
    | none => exact .inl rfl
    | some p => exact .inr (hpackage p hp)
  · rw [QualifiedName.parse?_eq_some_iff, isDotted_iff_hasSegments]
  · rw [PackageName.parse?_eq_some_iff, isDotted_iff_hasSegments, ← PackageName.isDefault_iff,
      PackageName.isDefault, List.isEmpty_iff]
  · exact QualifiedName.parse?_text (QualifiedName.parse?_eq_some_iff.1 hq).2
  · obtain ⟨-, hname⟩ := PackageName.parse?_eq_some_iff.1 hp
    refine ⟨PackageName.parse?_text hname, ?_⟩
    rcases hname with rfl | hd
    · exact ⟨rfl, fun w hw => absurd hw List.not_mem_nil⟩
    · rw [PackageName.segments_eq hd]
      exact ⟨List.intercalate_splitOn '.', (hasSegments_splitOn hd).isIdentifier⟩

theorem names_split_and_join_marked :
    let p : PackageName := ⟨"com.cafe\u0301"⟩
    let q : QualifiedName := ⟨"com.cafe\u0301.$x"⟩
    (PackageName.parse? "\u3000com.cafe\u0301\n" = some p ∧ isIdentifier "$x" = true ∧
      QualifiedName.parse? " com.cafe\u0301.$x" = some q) ∧
    (p.qualify "$x" = q ∧ q.simple = "$x" ∧ q.package? = some p) ∧
      PackageName.parse? p.text = some p ∧ join ['.'] p.segments = p.text ∧
      QualifiedName.parse? q.text = some q := by
  intro p q
  have hp : PackageName.parse? "\u3000com.cafe\u0301\n" = some p := by decide +kernel
  have hs : isIdentifier "$x" = true := by decide +kernel
  have hq : QualifiedName.parse? " com.cafe\u0301.$x" = some q := by decide +kernel
  obtain ⟨hqualify, -, -, -, hagain, hpackage⟩ := names_split_and_join
  obtain ⟨-, hsimple, hback⟩ := hqualify _ p "$x" hp hs
  obtain ⟨hparse, hjoin, -⟩ := hpackage _ p hp
  exact ⟨⟨hp, hs, hq⟩, ⟨rfl, hsimple, hback⟩, hparse, hjoin, hagain _ q hq⟩

end QuickFix
