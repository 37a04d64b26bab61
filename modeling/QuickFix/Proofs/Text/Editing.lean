import QuickFix.Proofs.Text.Places
import QuickFix.Text.Edit

/-!
# Edits undone and reordered

An edit applies to a text that its stretch cuts in three (`Span.Cuts`), and exchanges the part in the
middle. All else follows from such cuts:

* `Edit.exists_apply_iff`, `Edit.apply_eq_error_iff`: when it applies, and what is reported where it does
  not;
* `Edit.undo_apply`: the part put back gives the text back;
* `Edit.apply_rebase_iff`, `Edit.apply_apply_iff`: two edits, one behind the other, come to the same in
  either order (`Edit.MakeBoth`), if the one behind is moved along with its text.
-/

namespace QuickFix

/-- The stretch cuts the text into what stands before it, in it and behind it. -/
structure Span.Cuts (s : Span) (t before old after : Text) : Prop where
  text_eq : t = before ++ (old ++ after)
  start_eq : s.start = Text.bytes before
  stop_eq : s.stop = Text.bytes before + Text.bytes old

theorem Text.cutBytes?_eq_none_iff {n : Nat} {t : Text} :
    cutBytes? n t = none ↔ ¬IsBoundary t n := by
  rw [← not_iff_not, not_not, ← ne_eq, Option.ne_none_iff_exists']
  exact ⟨fun ⟨(a, b), h⟩ => ⟨a, b, cutBytes?_eq_some_iff.1 h⟩,
    fun ⟨a, b, h⟩ => ⟨(a, b), cutBytes?_eq_some_iff.2 h⟩⟩

namespace Edit

variable {e f : Edit} {t r : Text} {x : EditError}

/-! ## One edit -/

theorem exists_apply_iff : (∃ r, e.apply t = .ok r) ↔
    e.span.stop ≤ Text.bytes t ∧ Text.IsBoundary t e.span.start ∧ Text.IsBoundary t e.span.stop := by
  constructor
  · rintro ⟨r, h⟩
    obtain ⟨a, a', b', b, ha, hstart, hb, hstop, -⟩ := apply_eq_ok_iff.1 h
    refine ⟨?_, ⟨a, a', ha, hstart⟩, b', b, hb, hstop⟩
    rw [← hstop, hb, Text.bytes_append]
    exact Nat.le_add_right _ _
  · rintro ⟨-, ⟨a, a', ha, hstart⟩, b', b, hb, hstop⟩
    exact ⟨_, apply_eq_ok_iff.2 ⟨a, a', b', b, ha, hstart, hb, hstop, rfl⟩⟩

/-- Why an edit does not apply to a text: the first of its conditions that fails. -/
inductive Rejects (e : Edit) (t : Text) : EditError → Prop
  | outOfBounds (h : Text.bytes t < e.span.stop) : Rejects e t (.outOfBounds e.span (Text.bytes t))
  | start (h : e.span.stop ≤ Text.bytes t) (hstart : ¬Text.IsBoundary t e.span.start) :
    Rejects e t (.insideCharacter e.span.start)
  | stop (h : e.span.stop ≤ Text.bytes t) (hstart : Text.IsBoundary t e.span.start)
    (hstop : ¬Text.IsBoundary t e.span.stop) : Rejects e t (.insideCharacter e.span.stop)

theorem apply_of_rejects (h : e.Rejects t x) : e.apply t = .error x := by
  unfold apply
  cases h with
  | outOfBounds h => rw [if_pos h]
  | start h hstart => rw [if_neg (Nat.not_lt.2 h), Text.cutBytes?_eq_none_iff.2 hstart]
  | stop h hstart hstop =>
    obtain ⟨a, b, hab⟩ := hstart
    rw [if_neg (Nat.not_lt.2 h), Text.cutBytes?_eq_some_iff.2 hab,
      Text.cutBytes?_eq_none_iff.2 hstop]

theorem apply_eq_error_iff : e.apply t = .error x ↔ e.Rejects t x := by
  refine ⟨fun h => ?_, apply_of_rejects⟩
  suffices hany : ∃ y, e.Rejects t y by
    obtain ⟨y, hy⟩ := hany
    obtain rfl := Except.error.inj (h.symm.trans (apply_of_rejects hy))
    exact hy
  have hnot : ¬∃ r, e.apply t = .ok r := fun ⟨r, hr⟩ => by rw [h] at hr; cases hr
  rw [exists_apply_iff] at hnot
  by_cases hle : e.span.stop ≤ Text.bytes t
  · by_cases hstart : Text.IsBoundary t e.span.start
    · exact ⟨_, .stop hle hstart fun hstop => hnot ⟨hle, hstart, hstop⟩⟩
    · exact ⟨_, .start hle hstart⟩
  · exact ⟨_, .outOfBounds (Nat.lt_of_not_le hle)⟩

theorem apply_of_cuts {a m b : Text} (h : e.span.Cuts t a m b) :
    e.apply t = .ok (a ++ (e.text ++ b)) := by
  obtain ⟨⟨start, stop⟩, text⟩ := e
  obtain ⟨rfl, rfl, rfl⟩ := h
  exact apply_between a m text b

theorem exists_cuts (hle : e.span.start ≤ e.span.stop) (h : e.apply t = .ok r) :
    ∃ a m b, e.span.Cuts t a m b ∧ r = a ++ (e.text ++ b) := by
  obtain ⟨a, a', b', b, ha, hstart, hb, hstop, rfl⟩ := apply_eq_ok_iff.1 h
  obtain ⟨m, rfl, rfl⟩ := Text.exists_of_bytes_le (ha.symm.trans hb) (by omega)
  exact ⟨a, m, b, ⟨ha, hstart.symm, by rw [← hstop, Text.bytes_append]⟩, List.append_assoc ..⟩

/-- The edit that puts `old` back where `e` has put its text. -/
def undo (e : Edit) (old : Text) : Edit :=
  ⟨⟨e.span.start, e.span.start + Text.bytes e.text⟩, old⟩

theorem undo_apply (hle : e.span.start ≤ e.span.stop) (h : e.apply t = .ok r) :
    ∃ old, Text.slice? e.span.start e.span.stop t = some old ∧ (e.undo old).apply r = .ok t := by
  obtain ⟨a, old, b, hcut, rfl⟩ := exists_cuts hle h
  refine ⟨old, Text.slice?_eq_some_iff.2 ⟨a, b, hcut.text_eq, hcut.start_eq.symm, ?_⟩, ?_⟩
  · rw [hcut.stop_eq, hcut.start_eq]
  · have hback : (e.undo old).span.Cuts (a ++ (e.text ++ b)) a e.text b :=
      ⟨rfl, hcut.start_eq, congrArg (· + Text.bytes e.text) hcut.start_eq⟩
    rw [apply_of_cuts hback, hcut.text_eq]
    rfl

/-! ## Two edits -/

/-- The edit `f` of a text, as an edit of what `e` before it makes of that text: its stretch has moved
by what the text has become longer or shorter. -/
def rebase (f e : Edit) : Edit :=
  let moved n := n + Text.bytes e.text - (e.span.stop - e.span.start)
  ⟨⟨moved f.span.start, moved f.span.stop⟩, f.text⟩

/-- The text `r` is `t` with the stretches of both edits exchanged, that of `e` before that of `f`. -/
def MakeBoth (e f : Edit) (t r : Text) : Prop :=
  ∃ a m u n b, e.span.Cuts t a m (u ++ (n ++ b)) ∧ f.span.Cuts t (a ++ (m ++ u)) n b ∧
    r = a ++ (e.text ++ (u ++ (f.text ++ b)))

/-- Two cuts of a text, one behind the other, have a part between them. -/
theorem exists_between {a m c x n b : Text} (he : e.span.Cuts t a m c) (hf : f.span.Cuts t x n b)
    (h : e.span.stop ≤ f.span.start) : ∃ u, x = a ++ (m ++ u) ∧ c = u ++ (n ++ b) := by
  have htext : (a ++ m) ++ c = x ++ (n ++ b) := by
    rw [List.append_assoc, ← he.text_eq, ← hf.text_eq]
  have hbytes : Text.bytes (a ++ m) ≤ Text.bytes x := by
    rw [Text.bytes_append, ← he.stop_eq, ← hf.start_eq]
    exact h
  obtain ⟨u, hx, hc⟩ := Text.exists_of_bytes_le htext hbytes
  exact ⟨u, hx.trans (List.append_assoc ..), hc⟩

theorem makeBoth_of_apply {r₁ r₂ : Text} (he : e.span.start ≤ e.span.stop)
    (hf : f.span.start ≤ f.span.stop) (h : e.span.stop ≤ f.span.start) (h₁ : e.apply t = .ok r₁)
    (h₂ : f.apply t = .ok r₂) : ∃ r, e.MakeBoth f t r := by
  obtain ⟨a, m, c, hcut, -⟩ := exists_cuts he h₁
  obtain ⟨x, n, b, hcut', -⟩ := exists_cuts hf h₂
  obtain ⟨u, rfl, rfl⟩ := exists_between hcut hcut' h
  exact ⟨_, a, m, u, n, b, hcut, hcut', rfl⟩

/-- The edit behind made last. -/
theorem apply_rebase_iff (he : e.span.start ≤ e.span.stop) (hf : f.span.start ≤ f.span.stop)
    (h : e.span.stop ≤ f.span.start) :
    (e.apply t).bind (f.rebase e).apply = .ok r ↔ e.MakeBoth f t r := by
  constructor
  · intro hr
    cases h₁ : e.apply t with
    | error x => rw [h₁] at hr; cases hr
    | ok r₁ =>
      have h₂ : (f.rebase e).apply r₁ = .ok r := by rw [h₁] at hr; exact hr
      obtain ⟨a, m, c, hcut, rfl⟩ := exists_cuts he h₁
      have hstart := hcut.start_eq
      have hstop := hcut.stop_eq
      have hle : (f.rebase e).span.start ≤ (f.rebase e).span.stop := by
        simp only [rebase]
        omega
      obtain ⟨y, n, b, hcut', rfl⟩ := exists_cuts hle h₂
      have hstart' := hcut'.start_eq
      have hstop' := hcut'.stop_eq
      simp only [rebase] at hstart' hstop'
      -- what `e` has put in lies before the other stretch, so that this was there all along
      obtain ⟨u, rfl, rfl⟩ : ∃ u, y = (a ++ e.text) ++ u ∧ c = u ++ (n ++ b) := by
        refine Text.exists_of_bytes_le (by rw [List.append_assoc]; exact hcut'.text_eq) ?_
        rw [Text.bytes_append]
        omega
      simp only [Text.bytes_append] at hstart' hstop'
      refine ⟨a, m, u, n, b, hcut, ⟨?_, ?_, ?_⟩, ?_⟩
      · simp only [hcut.text_eq, List.append_assoc]
      · simp only [Text.bytes_append]
        omega
      · simp only [Text.bytes_append]
        omega
      · simp only [List.append_assoc]
        rfl
  · rintro ⟨a, m, u, n, b, hcut, hcut', rfl⟩
    have hmoved : (f.rebase e).span.Cuts (a ++ (e.text ++ (u ++ (n ++ b))))
        (a ++ (e.text ++ u)) n b := by
      have hstart := hcut'.start_eq
      have hstop := hcut'.stop_eq
      simp only [Text.bytes_append] at hstart hstop
      refine ⟨by simp only [List.append_assoc], ?_, ?_⟩ <;>
        simp only [rebase, hcut.start_eq, hcut.stop_eq, Text.bytes_append] <;> omega
    rw [apply_of_cuts hcut]
    refine (apply_of_cuts hmoved).trans ?_
    simp only [List.append_assoc]
    rfl

/-- The edit behind made first. -/
theorem apply_apply_iff (he : e.span.start ≤ e.span.stop) (hf : f.span.start ≤ f.span.stop)
    (h : e.span.stop ≤ f.span.start) :
    (f.apply t).bind e.apply = .ok r ↔ e.MakeBoth f t r := by
  constructor
  · intro hr
    cases h₁ : f.apply t with
    | error x => rw [h₁] at hr; cases hr
    | ok r₁ =>
      have h₂ : e.apply r₁ = .ok r := by rw [h₁] at hr; exact hr
      obtain ⟨y, n, b, hcut', rfl⟩ := exists_cuts hf h₁
      obtain ⟨a, m, c, hcut, rfl⟩ := exists_cuts he h₂
      obtain ⟨u, rfl, rfl⟩ : ∃ u, y = (a ++ m) ++ u ∧ c = u ++ (f.text ++ b) := by
        refine Text.exists_of_bytes_le (by rw [List.append_assoc]; exact hcut.text_eq.symm) ?_
        rw [Text.bytes_append, ← hcut.stop_eq, ← hcut'.start_eq]
        exact h
      rw [List.append_assoc] at hcut'
      refine ⟨a, m, u, n, b, ⟨?_, hcut.start_eq, hcut.stop_eq⟩, hcut', rfl⟩
      rw [hcut'.text_eq]
      simp only [List.append_assoc]
  · rintro ⟨a, m, u, n, b, hcut, hcut', rfl⟩
    rw [apply_of_cuts hcut']
    refine apply_of_cuts (m := m) (b := u ++ (f.text ++ b)) ⟨?_, hcut.start_eq, hcut.stop_eq⟩
    simp only [List.append_assoc]

/-- **Edits apply, are undone and come in any order.** An edit applies exactly if its stretch ends
within the text and both ends are places between characters; else the first of these conditions that
fails is reported. Where it applies, the replaced part put back gives the text back. Of two edits, the
second of which starts where the first ends or behind that, the second may be made first, or moved and
made last; both orders succeed if both edits apply, and with one text. -/
theorem undone_and_reordered (he : e.span.start ≤ e.span.stop) (t : Text) :
    ((∃ r, e.apply t = .ok r) ↔
      e.span.stop ≤ Text.bytes t ∧ Text.IsBoundary t e.span.start ∧ Text.IsBoundary t e.span.stop) ∧
    (∀ x, e.apply t = .error x ↔ e.Rejects t x) ∧
    (∀ r, e.apply t = .ok r →
      ∃ old, Text.slice? e.span.start e.span.stop t = some old ∧ (e.undo old).apply r = .ok t) ∧
    ∀ f : Edit, f.span.start ≤ f.span.stop → e.span.stop ≤ f.span.start →
      (∀ r, (e.apply t).bind (f.rebase e).apply = .ok r ↔ (f.apply t).bind e.apply = .ok r) ∧
      ((∃ r, (f.apply t).bind e.apply = .ok r) ↔
        (∃ r, e.apply t = .ok r) ∧ ∃ r, f.apply t = .ok r) := by
  refine ⟨exists_apply_iff, fun x => apply_eq_error_iff, fun r => undo_apply he, fun f hf h => ?_⟩
  refine ⟨fun r => (apply_rebase_iff he hf h).trans (apply_apply_iff he hf h).symm, ?_, ?_⟩
  · rintro ⟨r, hr⟩
    obtain ⟨a, m, u, n, b, hcut, hcut', -⟩ := (apply_apply_iff he hf h).1 hr
    exact ⟨⟨_, apply_of_cuts hcut⟩, _, apply_of_cuts hcut'⟩
  · rintro ⟨⟨r₁, h₁⟩, r₂, h₂⟩
    obtain ⟨r, hr⟩ := makeBoth_of_apply he hf h h₁ h₂
    exact ⟨r, (apply_apply_iff he hf h).2 hr⟩

/-- Two stretches that touch, one of which gets longer while the other goes. -/
theorem undone_and_reordered_touching :
    let t : Text := "aéb"
    let e : Edit := ⟨⟨1, 3⟩, "😀"⟩
    let f : Edit := ⟨⟨3, 4⟩, []⟩
    e.span.start ≤ e.span.stop ∧ f.span.start ≤ f.span.stop ∧ e.span.stop ≤ f.span.start ∧
      e.apply t = .ok "a😀b" ∧ (e.undo "é").apply "a😀b" = .ok t ∧
      (f.rebase e).span = ⟨5, 6⟩ ∧ (e.apply t).bind (f.rebase e).apply = .ok "a😀" ∧
      (f.apply t).bind e.apply = .ok "a😀" := by
  intro t e f
  have happly : e.apply t = .ok "a😀b" := rfl
  have hold : Text.slice? 1 3 t = some "é" := rfl
  have hboth : (f.apply t).bind e.apply = .ok "a😀" := rfl
  obtain ⟨-, -, hundo, horder⟩ := undone_and_reordered (e := e) (by decide) t
  obtain ⟨old, hslice, hback⟩ := hundo _ happly
  obtain rfl := Option.some.inj (hold.symm.trans hslice)
  exact ⟨by decide, by decide, by decide, happly, hback, rfl,
    ((horder f (by decide) (by decide)).1 _).2 hboth, hboth⟩

end Edit

end QuickFix
