import Mathlib.Data.List.Basic
import QuickFix.Text.Position

/-!
# Places and positions

Byte offsets and positions name the same places of a text. `Stands ls n p` says that the place `n`
bytes into the lines `ls` is at position `p`:

* `offset?_eq_some_iff`: the offset of a position is the place that stands there;
* `exists_stands_iff`: what stands somewhere is a place between characters that is not within a line
  end (`IsPlace`);
* `Stands.lt_iff`: the order of offsets is the order of lines and columns.

`positions_match` puts them together.
-/

namespace QuickFix

instance : LT Position where
  lt p q := p.line < q.line ∨ p.line = q.line ∧ p.column < q.column

instance : LE Position where
  le p q := p.line < q.line ∨ p.line = q.line ∧ p.column ≤ q.column

theorem Position.lt_iff {i j m n : Nat} :
    (⟨i, m⟩ : Position) < ⟨j, n⟩ ↔ i < j ∨ i = j ∧ m < n := Iff.rfl

theorem Position.le_iff {i j m n : Nat} :
    (⟨i, m⟩ : Position) ≤ ⟨j, n⟩ ↔ i < j ∨ i = j ∧ m ≤ n := Iff.rfl

namespace Text

/-- The offset `n` is between two characters or at an end of the text, and not within a line end. -/
def IsPlace (t : Text) (n : Nat) : Prop :=
  ∃ a b, t = a ++ b ∧ bytes a = n ∧ ¬(a.getLast? = some '\r' ∧ b.head? = some '\n')

/-! ## Widths of what comes first -/

theorem bytes_eq_zero_iff {t : Text} : bytes t = 0 ↔ t = [] := by
  cases t with
  | nil => simp
  | cons c t => simp [Nat.ne_of_gt c.utf8Size_pos]

theorem width_pos_of_ne_nil {w : Char → Nat} (hw : ∀ c, 0 < w c) {t : Text} (h : t ≠ []) :
    0 < width w t := by
  obtain ⟨c, u, rfl⟩ := List.exists_cons_of_ne_nil h
  have := hw c
  simp
  omega

/-- Of two cuts of a text, the one that leaves less before it by one width does so by any other. -/
theorem width_lt_iff {w v : Char → Nat} (hw : ∀ c, 0 < w c) (hv : ∀ c, 0 < v c)
    {x y x' y' : Text} (h : x ++ y = x' ++ y') : width w x < width w x' ↔ width v x < width v x' := by
  obtain ⟨u, rfl, -⟩ | ⟨u, rfl, -⟩ := List.append_eq_append_iff.1 h
  · cases u with
    | nil => simp
    | cons c u =>
      have := width_pos_of_ne_nil hw (List.cons_ne_nil c u)
      have := width_pos_of_ne_nil hv (List.cons_ne_nil c u)
      simp only [width_append]
      omega
  · simp only [width_append]
    omega

theorem unitCount_le_utf8Size (c : Char) : unitCount c ≤ c.utf8Size := by
  unfold unitCount
  split
  · exact c.utf8Size_pos
  · rename_i h
    have h' : (0x10000 : UInt32) ≤ c.val := by simpa using h
    simp only [Char.utf8Size]
    repeat' split
    all_goals first | omega | skip
    all_goals
      rename_i hc
      exact absurd (UInt32.le_trans h' hc) (by decide)

theorem units_le_bytes (t : Text) : units t ≤ bytes t := by
  induction t with
  | nil => exact Nat.le_refl 0
  | cons c t ih =>
    have := unitCount_le_utf8Size c
    simp only [units_cons, bytes_cons]
    omega

/-- No cut of a text has the given number of code units before it: there are fewer, or the cut would
be inside a pair. -/
theorem no_cut_iff {t : Text} {k : Nat} :
    (∀ a b, t = a ++ b → units a ≠ k) ↔
      units t < k ∨ ∃ a c b, t = a ++ c :: b ∧ unitCount c = 2 ∧ k = units a + 1 := by
  constructor
  · intro h
    induction t generalizing k with
    | nil => exact .inl (Nat.pos_of_ne_zero (Ne.symm (h [] [] rfl)))
    | cons c t ih =>
      have hzero : 0 ≠ k := h [] (c :: t) rfl
      have htwo : unitCount c = 1 ∨ unitCount c = 2 := by unfold unitCount; split <;> simp
      by_cases hk : k < unitCount c
      · exact .inr ⟨[], c, t, rfl, by omega, by simp; omega⟩
      · have ht : ∀ a b, t = a ++ b → units a ≠ k - unitCount c := by
          rintro a b rfl he
          have := h (c :: a) b rfl
          simp only [units_cons] at this
          omega
        rcases ih ht with hlt | ⟨a, d, b, rfl, hd, he⟩
        · left
          simp only [units_cons]
          omega
        · exact .inr ⟨c :: a, d, b, rfl, hd, by simp only [units_cons]; omega⟩
  · rintro (hlt | ⟨a, c, b, rfl, hc, rfl⟩) x y hxy he
    · rw [hxy, units_append] at hlt
      omega
    · obtain ⟨u, rfl, hu⟩ | ⟨u, rfl, hu⟩ := List.append_eq_append_iff.1 hxy
      · cases u with
        | nil => simp at he
        | cons d u =>
          obtain ⟨rfl, -⟩ := List.cons.inj hu
          simp only [units_append, units_cons] at he
          omega
      · simp only [units_append] at he
        omega

/-! ## Lines -/

/-- The character ends a line. -/
def EndsLine (c : Char) : Prop := c = '\n' ∨ c = '\r'

/-- The lines of a text: each but the last is ended by a line feed, by a carriage return that no line
feed follows, or by both. -/
inductive AreLines : Text → List Line → Prop
  | last {content : Text} (hc : ∀ c ∈ content, ¬EndsLine c) :
    AreLines content [⟨content, []⟩]
  | cons {content ending rest : Text} {ls : List Line} (hc : ∀ c ∈ content, ¬EndsLine c)
    (he : ending = ['\r', '\n'] ∨ ending = ['\n'] ∨
      ending = ['\r'] ∧ rest.head? ≠ some '\n') (hls : AreLines rest ls) :
    AreLines (content ++ (ending ++ rest)) (⟨content, ending⟩ :: ls)

theorem AreLines.ne_nil {t : Text} {ls : List Line} (h : AreLines t ls) : ls ≠ [] := by
  cases h <;> exact List.cons_ne_nil _ _

theorem areLines_lines (t : Text) : AreLines t (lines t) := by
  have none (c : Char) : c ∈ ([] : Text) → ¬EndsLine c := fun h => by cases h
  fun_induction lines t with
  | case1 => exact .last none
  | case2 t ih => exact .cons none (.inl rfl) ih
  | case3 c t hcrlf hc ih =>
    refine @AreLines.cons [] [c] t _ none ?_ ih
    rcases hc with rfl | rfl
    · exact .inr (.inl rfl)
    · refine .inr (.inr ⟨rfl, fun h => ?_⟩)
      obtain ⟨u, rfl⟩ := List.head?_eq_some_iff.1 h
      exact hcrlf u rfl rfl
  | case4 c t hcrlf hc hls ih => exact absurd hls ih.ne_nil
  | case5 c t hcrlf hc l ls hls ih =>
    rw [hls] at ih
    cases ih with
    | last h => exact .last (List.forall_mem_cons.2 ⟨hc, h⟩)
    | cons h he h' => exact .cons (List.forall_mem_cons.2 ⟨hc, h⟩) he h'

/-! ## What stands where -/

/-- The place `n` bytes into the lines is at the position. -/
inductive Stands : List Line → Nat → Position → Prop
  | here {l : Line} {ls : List Line} {x y : Text} (h : l.content = x ++ y) :
    Stands (l :: ls) (bytes x) ⟨0, units x⟩
  | further {l : Line} {ls : List Line} {n i c : Nat} (h : Stands ls n ⟨i, c⟩) :
    Stands (l :: ls) (l.bytes + n) ⟨i + 1, c⟩

theorem offset?_line_eq_some_iff {l : Line} {k n : Nat} :
    l.offset? k = some n ↔ ∃ x y, l.content = x ++ y ∧ units x = k ∧ bytes x = n := by
  simp only [Line.offset?, Option.map_eq_some_iff, Prod.exists, cut?_eq_some_iff unitCount_pos]
  constructor
  · rintro ⟨x, y, ⟨h, hk⟩, hn⟩
    exact ⟨x, y, h, hk, hn⟩
  · rintro ⟨x, y, h, hk, hn⟩
    exact ⟨x, y, ⟨h, hk⟩, hn⟩

theorem column?_of_append {l : Line} {x y : Text} (h : l.content = x ++ y) :
    l.column? (bytes x) = some (units x) := by
  have hle : bytes x ≤ bytes l.content := by rw [h]; simp
  rw [Line.column?, Nat.min_eq_left hle, cutBytes?_eq_some_iff.2 ⟨h, rfl⟩]
  rfl

theorem column?_of_le {l : Line} {n : Nat} (h : bytes l.content ≤ n) :
    l.column? n = some (units l.content) := by
  have hcut : cutBytes? (bytes l.content) l.content = some (l.content, []) :=
    cutBytes?_eq_some_iff.2 ⟨(List.append_nil _).symm, rfl⟩
  rw [Line.column?, Nat.min_eq_right h, hcut]
  rfl

theorem reach_eq_some_iff {base n : Nat} {ls : List Line} {p : Position} :
    reach base ls p = some n ↔ ∃ m, n = base + m ∧ Stands ls m p := by
  obtain ⟨i, k⟩ := p
  induction ls generalizing base i with
  | nil =>
    simp only [reach, reduceCtorEq, false_iff]
    rintro ⟨_, -, ⟨⟩⟩
  | cons l ls ih =>
    cases i with
    | zero =>
      simp only [reach, Option.map_eq_some_iff, offset?_line_eq_some_iff]
      constructor
      · rintro ⟨m, ⟨x, y, h, rfl, rfl⟩, rfl⟩
        exact ⟨_, rfl, .here h⟩
      · rintro ⟨_, rfl, h⟩
        cases h with
        | here h => exact ⟨_, ⟨_, _, h, rfl, rfl⟩, rfl⟩
    | succ i =>
      rw [reach, ih]
      constructor
      · rintro ⟨m, rfl, h⟩
        exact ⟨_, Nat.add_assoc .., .further h⟩
      · rintro ⟨_, rfl, h⟩
        cases h with
        | further h => exact ⟨_, (Nat.add_assoc ..).symm, h⟩

/-- The offset of a position is the place that stands there. -/
theorem offset?_eq_some_iff {t : Text} {p : Position} {n : Nat} :
    offset? t p = some n ↔ Stands (lines t) n p := by
  rw [offset?, reach_eq_some_iff]
  simp

/-- A place stands in a line where its content can be cut. -/
theorem exists_stands_at_iff {ls : List Line} {p : Position} :
    (∃ n, Stands ls n p) ↔
      ∃ l x y, ls[p.line]? = some l ∧ l.content = x ++ y ∧ units x = p.column := by
  obtain ⟨i, k⟩ := p
  induction ls generalizing i with
  | nil =>
    simp only [List.getElem?_nil, reduceCtorEq, false_and, exists_false, iff_false]
    rintro ⟨_, ⟨⟩⟩
  | cons l ls ih =>
    cases i with
    | zero =>
      constructor
      · rintro ⟨_, h⟩
        cases h with
        | here h => exact ⟨l, _, _, rfl, h, rfl⟩
      · rintro ⟨_, x, y, ⟨⟩, h, rfl⟩
        exact ⟨_, .here h⟩
    | succ i =>
      rw [List.getElem?_cons_succ, ← ih]
      constructor
      · rintro ⟨_, h⟩
        cases h with
        | further h => exact ⟨_, h⟩
      · rintro ⟨_, h⟩
        exact ⟨_, .further h⟩

theorem Stands.lt_bytes_of_ne_nil {t : Text} {l : Line} {ls : List Line} {x y : Text}
    (h : AreLines t (l :: ls)) (hls : ls ≠ []) (hx : l.content = x ++ y) : bytes x < l.bytes := by
  cases h with
  | last => exact absurd rfl hls
  | @cons content ending _ _ hc he hls' =>
    have : 0 < bytes ending := by rcases he with rfl | rfl | ⟨rfl, -⟩ <;> decide
    rw [Line.bytes, hx, bytes_append]
    show _ < _ + bytes ending
    omega

/-- **Places are in the order of their positions.** -/
theorem Stands.lt_iff {t : Text} {ls : List Line} {m n : Nat} {p q : Position}
    (hls : AreLines t ls) (hm : Stands ls m p) (hn : Stands ls n q) : m < n ↔ p < q := by
  induction hm generalizing t n q with
  | @here l ls x y hx =>
    cases hn with
    | @here _ _ x' y' hx' =>
      have := width_lt_iff Char.utf8Size_pos unitCount_pos (hx.symm.trans hx')
      rw [Position.lt_iff, bytes, bytes, units, units, this]
      simp
    | @further _ _ k i c hk =>
      have := Stands.lt_bytes_of_ne_nil hls (by rintro rfl; cases hk) hx
      rw [Position.lt_iff]
      omega
  | @further l ls k i c hk ih =>
    cases hn with
    | @here _ _ x' y' hx' =>
      have := Stands.lt_bytes_of_ne_nil hls (by rintro rfl; cases hk) hx'
      rw [Position.lt_iff]
      omega
    | @further _ _ k' i' c' hk' =>
      cases hls with
      | last => cases hk
      | cons hc he hls =>
        have := ih hls hk'
        rw [Position.lt_iff] at this ⊢
        omega

/-- A cut of a line end is at one of its sides, or between a carriage return and a line feed. -/
theorem cut_lineEnd {ending rest u v : Text}
    (he : ending = ['\r', '\n'] ∨ ending = ['\n'] ∨ ending = ['\r'] ∧ rest.head? ≠ some '\n')
    (h : ending = u ++ v) :
    u = [] ∨ v = [] ∨ u.getLast? = some '\r' ∧ v.head? = some '\n' := by
  subst h
  match u, v with
  | [], _ => exact .inl rfl
  | _ :: _, [] => exact .inr (.inl rfl)
  | x :: u, y :: v =>
    rcases he with he | he | ⟨he, -⟩
    · simp only [List.cons_append, List.cons.injEq, List.append_eq_singleton_iff] at he
      obtain ⟨rfl, ⟨rfl, rfl, -⟩ | ⟨-, ⟨⟩, -⟩⟩ := he
      exact .inr (.inr ⟨rfl, rfl⟩)
    · simp at he
    · simp at he

/-- What stands somewhere is a place of the text. -/
theorem exists_stands_iff {t : Text} {ls : List Line} (h : AreLines t ls) {n : Nat} :
    (∃ p, Stands ls n p) ↔ IsPlace t n := by
  induction h generalizing n with
  | @last content hc =>
    constructor
    · rintro ⟨_, h⟩
      cases h with
      | @here _ _ x y h =>
        refine ⟨x, y, h, rfl, fun hr => ?_⟩
        have hx : '\r' ∈ x := List.mem_of_getLast? hr.1
        have hmem : '\r' ∈ content := by rw [show content = x ++ y from h]; simp [hx]
        exact hc _ hmem (.inr rfl)
      | further h => cases h
    · rintro ⟨x, y, h, rfl, -⟩
      exact ⟨_, .here h⟩
  | @cons content ending rest ls hc he hls ih =>
    constructor
    · rintro ⟨_, h⟩
      cases h with
      | @here _ _ x y h =>
        have h' : content = x ++ y := h
        refine ⟨x, y ++ (ending ++ rest), by rw [h', List.append_assoc], rfl, fun hr => ?_⟩
        have hx : '\r' ∈ x := List.mem_of_getLast? hr.1
        exact hc _ (by rw [h']; simp [hx]) (.inr rfl)
      | @further _ _ k i c hk =>
        obtain ⟨a, b, rfl, rfl, hab⟩ := ih.1 ⟨_, hk⟩
        refine ⟨content ++ (ending ++ a), b, by simp, by simp [Line.bytes, Nat.add_assoc],
          fun hr => ?_⟩
        cases a with
        | nil =>
          rcases he with rfl | rfl | ⟨rfl, hrest⟩
          · simp at hr
          · simp at hr
          · exact hrest hr.2
        | cons d a =>
          rw [← List.append_assoc, List.getLast?_append_cons] at hr
          exact hab hr
    · rintro ⟨a, b, hab, rfl, hr⟩
      -- a cut behind the line end is one of the rest
      have behind (v : Text) (ha : a = content ++ (ending ++ v)) (hb : rest = v ++ b) :
          ∃ p, Stands (⟨content, ending⟩ :: ls) (bytes a) p := by
        have hv : IsPlace rest (bytes v) := by
          refine ⟨v, b, hb, rfl, fun hr' => hr ⟨?_, hr'.2⟩⟩
          obtain ⟨w, rfl⟩ := List.getLast?_eq_some_iff.1 hr'.1
          rw [ha, ← List.append_assoc, ← List.append_assoc, List.getLast?_concat]
        obtain ⟨⟨i, c⟩, hp⟩ := ih.2 hv
        have hn : bytes a = (⟨content, ending⟩ : Line).bytes + bytes v := by
          rw [ha]
          simp [Line.bytes, Nat.add_assoc]
        exact ⟨⟨i + 1, c⟩, by rw [hn]; exact .further hp⟩
      obtain ⟨u, ha, hu⟩ | ⟨u, ha, hu⟩ := List.append_eq_append_iff.1 hab
      · obtain ⟨v, hv, hb⟩ | ⟨v, hv, hb⟩ := List.append_eq_append_iff.1 hu
        · exact behind v (by rw [ha, hv]) hb
        · rcases cut_lineEnd he hv with rfl | rfl | ⟨hlast, hhead⟩
          · rw [List.append_nil] at ha
            exact ⟨_, .here (show content = a ++ [] by rw [ha, List.append_nil])⟩
          · rw [List.append_nil] at hv
            exact behind [] (by rw [ha, hv, List.append_nil]) hb.symm
          · obtain ⟨w, rfl⟩ := List.getLast?_eq_some_iff.1 hlast
            obtain ⟨z, rfl⟩ := List.head?_eq_some_iff.1 hhead
            exact absurd ⟨by rw [ha, ← List.append_assoc, List.getLast?_concat], by rw [hb]; rfl⟩ hr
      · exact ⟨_, .here (show content = a ++ u from ha)⟩

/-! ## Positions of offsets -/

theorem locate_cons {i n : Nat} {l : Line} {ls : List Line} (h : ls ≠ []) :
    locate i (l :: ls) n = if n < l.bytes then (l.column? n).map fun c => ⟨i, c⟩
      else locate (i + 1) ls (n - l.bytes) := by
  obtain ⟨m, ls, rfl⟩ := List.exists_cons_of_ne_nil h
  rfl

/-- The position of a place is where it stands. -/
theorem Stands.locate_eq {t : Text} {ls : List Line} {n i : Nat} {p : Position} (h : Stands ls n p)
    (hls : AreLines t ls) : locate i ls n = some ⟨i + p.line, p.column⟩ := by
  induction h generalizing t i with
  | @here l ls x y hx =>
    by_cases hne : ls = []
    · subst hne
      rw [locate, column?_of_append hx]
      rfl
    · rw [locate_cons hne, if_pos (Stands.lt_bytes_of_ne_nil hls hne hx), column?_of_append hx]
      rfl
  | @further l ls n j c h ih =>
    have hne : ls ≠ [] := by rintro rfl; cases h
    cases hls with
    | last => exact absurd rfl hne
    | cons hc he hls =>
      rw [locate_cons hne, if_neg (by omega), Nat.add_sub_cancel_left, ih hls]
      simp only [Option.some.injEq, Position.mk.injEq, and_true]
      omega

/-- Every position that an offset has is that of a place not after it. -/
theorem exists_stands_of_locate {ls : List Line} {n i : Nat} {p : Position}
    (h : locate i ls n = some p) :
    ∃ m q, m ≤ n ∧ p = ⟨i + q.line, q.column⟩ ∧ Stands ls m q := by
  have within {l : Line} {ls : List Line} {n i : Nat} {p : Position}
      (h : (l.column? n).map (fun c => (⟨i, c⟩ : Position)) = some p) :
      ∃ m q, m ≤ n ∧ p = ⟨i + q.line, q.column⟩ ∧ Stands (l :: ls) m q := by
    simp only [Line.column?, Option.map_map, Option.map_eq_some_iff, Prod.exists,
      cutBytes?_eq_some_iff] at h
    obtain ⟨x, y, ⟨hx, hn⟩, rfl⟩ := h
    exact ⟨_, _, by omega, rfl, .here hx⟩
  induction ls generalizing i n with
  | nil => cases h
  | cons l ls ih =>
    by_cases hne : ls = []
    · subst hne
      exact within h
    rw [locate_cons hne] at h
    split at h
    · exact within h
    · obtain ⟨m, ⟨j, c⟩, hm, rfl, hq⟩ := ih h
      refine ⟨_, _, ?_, ?_, .further hq⟩
      · omega
      · simp only [Position.mk.injEq, and_true]
        omega

/-- Past the end of the text is its end. -/
theorem locate_of_le {t : Text} {ls : List Line} {n i : Nat} (hls : AreLines t ls)
    (h : bytes t ≤ n) : locate i ls n = locate i ls (bytes t) := by
  induction hls generalizing i n with
  | last => rw [locate, locate, column?_of_le h, column?_of_le (Nat.le_refl _)]
  | @cons content ending rest ls hc he hls ih =>
    have ht : bytes (content ++ (ending ++ rest)) = (⟨content, ending⟩ : Line).bytes + bytes rest := by
      simp [Line.bytes, Nat.add_assoc]
    rw [ht] at h ⊢
    rw [locate_cons hls.ne_nil, locate_cons hls.ne_nil, if_neg (by omega), if_neg (by omega),
      ih (by omega), Nat.add_sub_cancel_left]

/-- Of two cuts of a text, the one with less before it leaves a part of the other. -/
theorem exists_of_bytes_le {x y x' y' : Text} (h : x ++ y = x' ++ y') (hle : bytes x ≤ bytes x') :
    ∃ u, x' = x ++ u ∧ y = u ++ y' := by
  obtain ⟨u, hx, hy⟩ | ⟨u, hx, hy⟩ := List.append_eq_append_iff.1 h
  · exact ⟨u, hx, hy⟩
  · obtain rfl : u = [] := by
      rw [← bytes_eq_zero_iff]
      rw [hx, bytes_append] at hle
      omega
    exact ⟨[], by simpa using hx.symm, by simpa using hy.symm⟩

/-- Between a carriage return and its line feed is the end of the line that they end. -/
theorem Stands.locate_succ {a b : Text} {ls : List Line} {n i : Nat} {p : Position}
    (h : Stands ls n p) (hls : AreLines (a ++ '\r' :: '\n' :: b) ls) (hn : bytes a = n) :
    locate i ls (n + 1) = some ⟨i + p.line, p.column⟩ ∧
      ls[p.line]?.map (fun l => units l.content) = some p.column := by
  generalize ht : a ++ '\r' :: '\n' :: b = t at hls
  induction h generalizing a t i with
  | @here l ls x y hx =>
    cases hls with
    | last hc => exact absurd (.inr rfl) (hc '\r' (by rw [← ht]; simp))
    | @cons content ending rest _ hc he hls =>
      have hx' : content = x ++ y := hx
      rw [hx', List.append_assoc] at ht
      obtain ⟨u, ha, hu⟩ := exists_of_bytes_le ht (Nat.le_of_eq hn)
      obtain rfl : u = [] := by
        rw [← bytes_eq_zero_iff]
        rw [ha, bytes_append] at hn
        omega
      obtain rfl : y = [] := by
        cases y with
        | nil => rfl
        | cons c y =>
          obtain ⟨rfl, -⟩ := List.cons.inj hu
          exact absurd (.inr rfl) (hc '\r' (by rw [hx']; simp))
      rw [List.append_nil] at hx hx'
      have hlt : bytes x + 1 < (⟨content, ending⟩ : Line).bytes := by
        rcases he with rfl | rfl | ⟨rfl, hrest⟩
        · simp [Line.bytes, hx', Char.utf8Size]
        · cases hu
        · obtain ⟨-, hu⟩ := List.cons.inj hu
          have hhead : rest.head? = some '\n' := by
            rw [show rest = '\n' :: b from hu.symm]
            rfl
          exact absurd hhead hrest
      have hle : bytes content ≤ bytes x + 1 := by rw [hx']; omega
      rw [locate_cons hls.ne_nil, if_pos hlt, column?_of_le hle]
      exact ⟨by rw [hx']; rfl, by rw [← hx']; rfl⟩
  | @further l ls n j c h ih =>
    cases hls with
    | last => cases h
    | @cons content ending rest _ hc he hls =>
      have hline : bytes (content ++ ending) = (⟨content, ending⟩ : Line).bytes := by
        simp [Line.bytes]
      rw [← List.append_assoc] at ht
      obtain ⟨a', rfl, ha'⟩ := exists_of_bytes_le ht.symm (by omega)
      have hk : bytes a' = n := by
        rw [bytes_append, hline] at hn
        omega
      obtain ⟨hloc, hcol⟩ := ih (i := i + 1) hk _ ha'.symm hls
      refine ⟨?_, hcol⟩
      rw [locate_cons hls.ne_nil, if_neg (by omega), Nat.add_assoc, Nat.add_sub_cancel_left, hloc]
      simp only [Option.some.injEq, Position.mk.injEq, and_true]
      omega

theorem position?_eq_of_stands {t : Text} {n : Nat} {p : Position} (h : Stands (lines t) n p) :
    position? t n = some p := by
  rw [position?, h.locate_eq (areLines_lines t), Nat.zero_add]

/-- A position is not farther from the start than its place. -/
theorem Stands.line_add_column_le {t : Text} {ls : List Line} {n : Nat} {p : Position}
    (h : Stands ls n p) (hls : AreLines t ls) : p.line + p.column ≤ n := by
  induction h generalizing t with
  | @here l ls x y hx =>
    have := units_le_bytes x
    show 0 + units x ≤ bytes x
    omega
  | @further l ls n i c h ih =>
    have hne : ls ≠ [] := by rintro rfl; cases h
    have := Stands.lt_bytes_of_ne_nil (x := []) hls hne rfl
    cases hls with
    | last => exact absurd rfl hne
    | cons hc he hls =>
      have := ih hls
      simp only at this ⊢
      omega

theorem exists_offset?_of_position? {t : Text} {n : Nat} {p : Position}
    (h : position? t n = some p) : ∃ m ≤ n, offset? t p = some m := by
  obtain ⟨m, q, hm, rfl, hq⟩ := exists_stands_of_locate h
  refine ⟨m, hm, offset?_eq_some_iff.2 ?_⟩
  rw [Nat.zero_add]
  exact hq

theorem isPlace_of_offset? {t : Text} {n : Nat} {p : Position} (h : offset? t p = some n) :
    IsPlace t n :=
  (exists_stands_iff (areLines_lines t)).1 ⟨p, offset?_eq_some_iff.1 h⟩

theorem offset?_lt_iff {t : Text} {m n : Nat} {p q : Position} (hm : offset? t p = some m)
    (hn : offset? t q = some n) : m < n ↔ p < q :=
  (offset?_eq_some_iff.1 hm).lt_iff (areLines_lines t) (offset?_eq_some_iff.1 hn)

theorem isPlace_bytes (t : Text) : IsPlace t (bytes t) :=
  ⟨t, [], (List.append_nil t).symm, rfl, fun h => by cases h.2⟩

theorem IsPlace.le {t : Text} {n : Nat} (h : IsPlace t n) : n ≤ bytes t := by
  obtain ⟨a, b, rfl, rfl, -⟩ := h
  simp

theorem position?_offset? {t : Text} {n : Nat} {p : Position} (h : offset? t p = some n) :
    position? t n = some p :=
  position?_eq_of_stands (offset?_eq_some_iff.1 h)

theorem offset?_position? {t : Text} {n : Nat} (h : IsPlace t n) :
    ∃ p, position? t n = some p ∧ offset? t p = some n := by
  obtain ⟨p, hp⟩ := (exists_stands_iff (areLines_lines t)).2 h
  exact ⟨p, position?_eq_of_stands hp, offset?_eq_some_iff.2 hp⟩

/-- A place keeps its offset through its position. -/
theorem offset?_of_position? {t : Text} {n : Nat} {p : Position} (h : IsPlace t n)
    (hp : position? t n = some p) : offset? t p = some n := by
  obtain ⟨q, hq, hn⟩ := offset?_position? h
  rwa [Option.some.inj (hp.symm.trans hq)]

theorem offset?_eq_none_iff {t : Text} {p : Position} : offset? t p = none ↔
    (lines t).length ≤ p.line ∨ ∃ l, (lines t)[p.line]? = some l ∧
      (units l.content < p.column ∨
        ∃ a c b, l.content = a ++ c :: b ∧ unitCount c = 2 ∧ p.column = units a + 1) := by
  have hnone : offset? t p = none ↔ ¬∃ l x y,
      (lines t)[p.line]? = some l ∧ l.content = x ++ y ∧ units x = p.column := by
    rw [← exists_stands_at_iff, Option.eq_none_iff_forall_ne_some, not_exists]
    exact forall_congr' fun n => not_congr offset?_eq_some_iff
  rw [hnone]
  cases hl : (lines t)[p.line]? with
  | none =>
    refine iff_of_true ?_ (.inl (List.getElem?_eq_none_iff.1 hl))
    rintro ⟨_, _, _, ⟨⟩, -⟩
  | some l =>
    have hlen : ¬(lines t).length ≤ p.line := fun h => by
      rw [List.getElem?_eq_none_iff.2 h] at hl
      cases hl
    simp only [hlen, false_or, Option.some.injEq, exists_and_left, exists_eq_left', ← no_cut_iff]
    constructor
    · intro h a b hab he
      exact h ⟨a, b, hab, he⟩
    · rintro h ⟨a, b, hab, he⟩
      exact h a b hab he

theorem position?_within {t a b : Text} (h : t = a ++ '\r' :: '\n' :: b) :
    ∃ p l, position? t (bytes a + 1) = some p ∧ offset? t p = some (bytes a) ∧
      (lines t)[p.line]? = some l ∧ p.column = units l.content := by
  have hplace : IsPlace t (bytes a) := ⟨a, _, h, rfl, fun hr => by cases hr.2⟩
  obtain ⟨p, hp⟩ := (exists_stands_iff (areLines_lines t)).2 hplace
  have hls : AreLines (a ++ '\r' :: '\n' :: b) (lines t) := h ▸ areLines_lines t
  obtain ⟨hloc, hcol⟩ := hp.locate_succ (i := 0) hls rfl
  obtain ⟨l, hl, hcol⟩ := Option.map_eq_some_iff.1 hcol
  refine ⟨p, l, ?_, offset?_eq_some_iff.2 hp, hl, hcol.symm⟩
  rw [position?, hloc, Nat.zero_add]

theorem span?_eq_some_iff {t : Text} {p q : Position} {s : Span} : span? t p q = some s ↔
    offset? t p = some s.start ∧ offset? t q = some s.stop ∧ p ≤ q := by
  have order {m n : Nat} (hm : offset? t p = some m) (hn : offset? t q = some n) :
      m ≤ n ↔ p ≤ q := by
    have hlt := offset?_lt_iff hn hm
    rw [← Nat.not_lt, hlt]
    obtain ⟨i, c⟩ := p
    obtain ⟨j, d⟩ := q
    rw [Position.lt_iff, Position.le_iff]
    omega
  cases hm : offset? t p with
  | none => simp [span?, hm]
  | some m =>
    cases hn : offset? t q with
    | none => simp [span?, hm, hn]
    | some n =>
      obtain ⟨start, stop⟩ := s
      simp only [span?, hm, hn, Option.bind_eq_bind, Option.bind_some, ← order hm hn,
        Option.some.injEq]
      constructor
      · intro h
        split at h
        · rename_i hle
          cases h
          exact ⟨rfl, rfl, hle⟩
        · cases h
      · rintro ⟨rfl, rfl, hle⟩
        rw [if_pos hle]
        rfl

theorem line_add_column_le {t : Text} {n : Nat} {p : Position} (h : position? t n = some p) :
    p.line + p.column ≤ bytes t := by
  obtain ⟨m, -, hm⟩ := exists_offset?_of_position? h
  have hle := (offset?_eq_some_iff.1 hm).line_add_column_le (areLines_lines t)
  exact Nat.le_trans hle (isPlace_of_offset? hm).le

/-- The offsets and the positions of a text match. -/
structure PositionsMatch (t : Text) : Prop where
  /-- A place has a position, and that has its offset. -/
  offset?_position? {n : Nat} (h : IsPlace t n) : ∃ p, position? t n = some p ∧ offset? t p = some n
  /-- A position that has an offset has that of a place, and is the position of it. -/
  position?_offset? {p : Position} {n : Nat} (h : offset? t p = some n) :
    IsPlace t n ∧ position? t n = some p
  /-- Positions are in the order of their places. -/
  position?_lt_iff {m n : Nat} {p q : Position} (hm : IsPlace t m) (hn : IsPlace t n)
    (hp : position? t m = some p) (hq : position? t n = some q) : p < q ↔ m < n
  offset?_lt_iff {p q : Position} {m n : Nat} (hm : offset? t p = some m)
    (hn : offset? t q = some n) : m < n ↔ p < q
  /-- The positions without an offset are below the last line, past the end of their line, or inside
  a pair of code units. -/
  offset?_eq_none_iff {p : Position} : offset? t p = none ↔
    (lines t).length ≤ p.line ∨ ∃ l, (lines t)[p.line]? = some l ∧
      (units l.content < p.column ∨
        ∃ a c b, l.content = a ++ c :: b ∧ unitCount c = 2 ∧ p.column = units a + 1)
  /-- Between a carriage return and its line feed is the end of the line that they end. -/
  position?_within {a b : Text} (h : t = a ++ '\r' :: '\n' :: b) :
    ∃ p l, position? t (bytes a + 1) = some p ∧ offset? t p = some (bytes a) ∧
      (lines t)[p.line]? = some l ∧ p.column = units l.content
  /-- Past the end of the text is its end. -/
  position?_past {n : Nat} (h : bytes t ≤ n) :
    position? t n = position? t (bytes t) ∧ IsPlace t (bytes t)
  /-- A stretch is between two positions that have offsets and are in order. -/
  span?_eq_some_iff {p q : Position} {s : Span} : span? t p q = some s ↔
    offset? t p = some s.start ∧ offset? t q = some s.stop ∧ p ≤ q
  /-- No line or column is greater than the number of bytes. -/
  line_add_column_le {n : Nat} {p : Position} (h : position? t n = some p) :
    p.line + p.column ≤ bytes t

/-- **Offsets and positions name the same places**, in the same order. -/
theorem positions_match (t : Text) : PositionsMatch t where
  offset?_position? h := offset?_position? h
  position?_offset? h := ⟨isPlace_of_offset? h, position?_offset? h⟩
  position?_lt_iff hm hn hp hq :=
    (offset?_lt_iff (offset?_of_position? hm hp) (offset?_of_position? hn hq)).symm
  offset?_lt_iff hm hn := offset?_lt_iff hm hn
  offset?_eq_none_iff := offset?_eq_none_iff
  position?_within h := position?_within h
  position?_past h := ⟨locate_of_le (areLines_lines t) h, isPlace_bytes t⟩
  span?_eq_some_iff := span?_eq_some_iff
  line_add_column_le h := line_add_column_le h

end Text

end QuickFix
