import QuickFix.Text.Position

/-!
# Edits

An edit replaces one stretch of a text. It applies when the stretch lies within the text and both of
its ends are places between characters (`apply_eq_ok_iff`); the first failing condition is the error.
-/

namespace QuickFix

/-- Replacement of a stretch of a text. -/
structure Edit where
  span : Span
  text : Text
  deriving DecidableEq, Repr

/-- Why an edit does not fit a text. -/
inductive EditError where
  /-- The stretch ends past the end of the text. -/
  | outOfBounds (span : Span) (length : Nat)
  /-- An end of the stretch lies inside a character. -/
  | insideCharacter (offset : Nat)
  deriving DecidableEq, Repr

/-- Wording of an error. -/
def EditError.message : EditError → Text
  | .outOfBounds span length =>
    "edit range " ++ span.render ++ " is out of bounds for text length " ++ Text.ofNat length
  | .insideCharacter offset =>
    "offset " ++ Text.ofNat offset ++ " is not a UTF-8 character boundary"

namespace Edit

/-- Put `text` at an offset. -/
def insert (offset : Nat) (text : Text) : Edit := ⟨.point offset, text⟩

/-- The text with the edit made. -/
def apply (e : Edit) (t : Text) : Except EditError Text :=
  if Text.bytes t < e.span.stop then .error (.outOfBounds e.span (Text.bytes t))
  else match Text.cutBytes? e.span.start t, Text.cutBytes? e.span.stop t with
    | none, _ => .error (.insideCharacter e.span.start)
    | _, none => .error (.insideCharacter e.span.stop)
    | some (before, _), some (_, after) => .ok (before ++ e.text ++ after)

theorem apply_eq_ok_iff {e : Edit} {t r : Text} :
    e.apply t = .ok r ↔ ∃ a a' b' b, t = a ++ a' ∧ Text.bytes a = e.span.start ∧
      t = b' ++ b ∧ Text.bytes b' = e.span.stop ∧ r = a ++ e.text ++ b := by
  unfold apply
  constructor
  · intro h
    split at h
    · cases h
    · split at h
      · cases h
      · cases h
      · rename_i a a' b' b ha hb
        cases h
        obtain ⟨ha, ha'⟩ := Text.cutBytes?_eq_some_iff.1 ha
        obtain ⟨hb, hb'⟩ := Text.cutBytes?_eq_some_iff.1 hb
        exact ⟨a, a', b', b, ha, ha', hb, hb', rfl⟩
  · rintro ⟨a, a', b', b, ha, ha', hb, hb', rfl⟩
    have hle : ¬ Text.bytes t < e.span.stop := by rw [hb, ← hb']; simp
    simp [hle, Text.cutBytes?_eq_some_iff.2 ⟨ha, ha'⟩, Text.cutBytes?_eq_some_iff.2 ⟨hb, hb'⟩]

theorem insert_apply (a n b : Text) : (insert (Text.bytes a) n).apply (a ++ b) = .ok (a ++ n ++ b) :=
  apply_eq_ok_iff.2 ⟨a, b, a, b, rfl, rfl, rfl, rfl, rfl⟩

theorem apply_between (a m n b : Text) :
    (⟨⟨Text.bytes a, Text.bytes a + Text.bytes m⟩, n⟩ : Edit).apply (a ++ (m ++ b)) =
      .ok (a ++ (n ++ b)) :=
  apply_eq_ok_iff.2 ⟨a, m ++ b, a ++ m, b, rfl, rfl, by simp, by simp, by simp⟩

end Edit

end QuickFix
