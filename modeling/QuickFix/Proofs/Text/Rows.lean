import Mathlib.Data.List.DropRight
import QuickFix.Text.Basic

/-!
# Rows put together

The rows of a text that is put together at line ends are those of its parts (`rows_append`). A row
counts without its line end in `bareRows`, which a line end behind an unfinished last row does not
change (`bareRows_complete`).
-/

namespace QuickFix.Text

theorem rows_newline (t : Text) : rows ('\n' :: t) = ['\n'] :: rows t := by simp [rows]

theorem rows_eq_nil_iff {t : Text} : rows t = [] ↔ t = [] := by
  constructor
  · intro h
    rw [← flatten_rows t, h]
    rfl
  · rintro rfl
    rfl

/-- A character that is no line feed goes to the row behind it. -/
theorem rows_cons {c : Char} {t p : Text} {ps : List Text} (hc : c ≠ '\n') (h : rows t = p :: ps) :
    rows (c :: t) = (c :: p) :: ps := by
  rw [rows, if_neg hc, h]

theorem getLast?_of_ne_nil {c : Char} {t : Text} (h : t ≠ []) :
    (c :: t).getLast? = t.getLast? := by
  obtain ⟨d, u, rfl⟩ := List.exists_cons_of_ne_nil h
  exact List.getLast?_cons_cons

theorem rows_append {a : Text} (h : ∀ c ∈ a.getLast?, c = '\n') (b : Text) :
    rows (a ++ b) = rows a ++ rows b := by
  induction a with
  | nil => rfl
  | cons c a ih =>
    by_cases ha : a = []
    · subst ha
      obtain rfl : c = '\n' := h c rfl
      exact rows_newline b
    rw [getLast?_of_ne_nil ha] at h
    by_cases hc : c = '\n'
    · subst hc
      rw [List.cons_append, rows_newline, rows_newline, ih h]
      rfl
    · obtain ⟨p, ps, hp⟩ := List.exists_cons_of_ne_nil (mt rows_eq_nil_iff.1 ha)
      have hab : rows (a ++ b) = p :: (ps ++ rows b) := by
        rw [ih h, hp]
        rfl
      rw [rows_cons hc hp, List.cons_append, rows_cons hc hab]
      rfl

/-- A text that has a line feed at its end only is one row. -/
theorem rows_line {t : Text} (h : '\n' ∉ t) : rows (t ++ ['\n']) = [t ++ ['\n']] := by
  induction t with
  | nil => rfl
  | cons c t ih =>
    rw [List.mem_cons, not_or] at h
    exact rows_cons (Ne.symm h.1) (ih h.2)

/-- The rows behind the first one are those of the text behind it. -/
theorem rows_of_cons {t p : Text} {ps : List Text} (h : rows t = p :: ps) :
    rows ps.flatten = ps := by
  induction t generalizing p with
  | nil => cases h
  | cons c t ih =>
    by_cases hc : c = '\n'
    · subst hc
      rw [rows_newline] at h
      obtain ⟨-, rfl⟩ := List.cons.inj h
      rw [flatten_rows]
    · cases ht : rows t with
      | nil =>
        rw [rows, if_neg hc, ht] at h
        obtain ⟨-, rfl⟩ := List.cons.inj h
        rfl
      | cons q qs =>
        rw [rows_cons hc ht] at h
        obtain ⟨-, rfl⟩ := List.cons.inj h
        exact ih ht

theorem rows_of_append {t : Text} {above below : List Text} (h : rows t = above ++ below) :
    rows below.flatten = below := by
  induction above generalizing t with
  | nil =>
    rw [List.nil_append] at h
    rw [← h, flatten_rows]
  | cons p above ih => exact ih (rows_of_cons h)

/-! ## Rows without line ends -/

/-- The rows of a text without their line ends. -/
def bareRows (t : Text) : List Text := (rows t).map chomp

theorem bareRows_append {a : Text} (h : ∀ c ∈ a.getLast?, c = '\n') (b : Text) :
    bareRows (a ++ b) = bareRows a ++ bareRows b := by
  rw [bareRows, rows_append h, List.map_append]
  rfl

theorem dropEndWhile_append {p : Char → Bool} {a u : Text} (h : ∀ c ∈ u, p c = true) :
    dropEndWhile p (a ++ u) = dropEndWhile p a := by
  have hu : ∀ c ∈ u.reverse, p c = true := fun c hc => h c (List.mem_reverse.1 hc)
  rw [dropEndWhile, List.reverse_append, List.dropWhile_append_of_pos hu]
  rfl

theorem dropEndWhile_eq_rdropWhile (p : Char → Bool) (t : Text) :
    dropEndWhile p t = t.rdropWhile p := rfl

theorem dropEndWhile_eq_self {p : Char → Bool} {t : Text} (h : ∀ c ∈ t.getLast?, p c = false) :
    dropEndWhile p t = t := by
  rw [dropEndWhile_eq_rdropWhile, List.rdropWhile_eq_self_iff]
  intro ht
  rw [h _ (List.getLast?_eq_some_getLast ht)]
  exact Bool.false_ne_true

theorem chomp_append {a u : Text} (h : ∀ c ∈ u, c = '\r' ∨ c = '\n') :
    chomp (a ++ u) = chomp a := by
  refine dropEndWhile_append fun c hc => ?_
  rcases h c hc with rfl | rfl <;> rfl

/-- A text that does not end with a line feed ends with a row without one. -/
theorem exists_last_row {a : Text} (ha : a ≠ []) (hn : '\n' ∉ a.getLast?) :
    ∃ b l, a = b ++ l ∧ (∀ c ∈ b.getLast?, c = '\n') ∧ '\n' ∉ l ∧ l ≠ [] := by
  induction a with
  | nil => exact absurd rfl ha
  | cons c a ih =>
    by_cases ha' : a = []
    · subst ha'
      refine ⟨[], [c], rfl, by simp, fun h => ?_, by simp⟩
      obtain rfl : '\n' = c := List.mem_singleton.1 h
      exact hn rfl
    · rw [getLast?_of_ne_nil ha'] at hn
      obtain ⟨b, l, rfl, hb, hl, hne⟩ := ih ha' hn
      by_cases hc : b = [] ∧ c ≠ '\n'
      · obtain ⟨rfl, hc⟩ := hc
        exact ⟨[], c :: l, rfl, by simp, by simp [hl, Ne.symm hc], by simp⟩
      · refine ⟨c :: b, l, rfl, ?_, hl, hne⟩
        by_cases hb' : b = []
        · subst hb'
          intro d hd
          obtain rfl : c = d := Option.some.inj hd
          exact Decidable.byContradiction fun h => hc ⟨rfl, h⟩
        · rwa [getLast?_of_ne_nil hb']

theorem rows_of_not_mem {t : Text} (h : '\n' ∉ t) (hne : t ≠ []) : rows t = [t] := by
  induction t with
  | nil => exact absurd rfl hne
  | cons c t ih =>
    rw [List.mem_cons, not_or] at h
    by_cases ht : t = []
    · subst ht
      rw [rows, if_neg (Ne.symm h.1), rows]
    · exact rows_cons (Ne.symm h.1) (ih h.2 ht)

/-- A line end behind a last row without one only completes this row. -/
theorem bareRows_complete {a s : Text} (ha : a ≠ []) (hn : '\n' ∉ a.getLast?)
    (hs : ∀ c ∈ s, c = '\r') : bareRows (a ++ (s ++ ['\n'])) = bareRows a := by
  obtain ⟨b, l, rfl, hb, hl, hne⟩ := exists_last_row ha hn
  have hls : '\n' ∉ l ++ s := by
    rw [List.mem_append]
    rintro (h | h)
    · exact hl h
    · exact absurd (hs _ h) (by decide)
  have hends : ∀ c ∈ s ++ ['\n'], c = '\r' ∨ c = '\n' := by
    intro c hc
    rw [List.mem_append, List.mem_singleton] at hc
    exact hc.imp_left (hs c)
  have hrow : bareRows (l ++ (s ++ ['\n'])) = bareRows l := by
    rw [bareRows, bareRows, rows_of_not_mem hl hne, ← List.append_assoc, rows_line hls,
      List.map_singleton, List.map_singleton, List.append_assoc, chomp_append hends]
  rw [List.append_assoc, bareRows_append hb, bareRows_append hb, hrow]

end QuickFix.Text
