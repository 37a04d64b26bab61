import QuickFix.Proofs.Text.Places

/-!
# Positions by counting

`breaks` notes the line ends of a text in one scan from the left. The line of an offset is the number
of them that end up to it, and its column counts the code units from the last of them on, up to the
next one at most: `position?_eq_scan`.
-/

namespace QuickFix.Text

/-- The line ends of a text at offset `base`, from the left: a line feed, a carriage return that no
line feed follows, or both together. -/
def breaks (base : Nat) : Text → List Span
  | [] => []
  | '\r' :: '\n' :: t => ⟨base, base + 2⟩ :: breaks (base + 2) t
  | c :: t =>
    if c = '\n' ∨ c = '\r' then ⟨base, base + 1⟩ :: breaks (base + 1) t
    else breaks (base + c.utf8Size) t

/-- Where the line of the place `n` starts: behind the last of the line ends that ends up to there, or
at `base`. -/
def lineStart (base : Nat) (bs : List Span) (n : Nat) : Nat :=
  ((bs.filter (·.stop ≤ n)).map Span.stop).getLastD base

/-- Where the content of the line of the place `n` stops: before the first of the line ends that ends
behind there, or at `last`. -/
def lineStop (last : Nat) (bs : List Span) (n : Nat) : Nat :=
  ((bs.find? (n < ·.stop)).map Span.start).getD last

/-! ## One line end after the other -/

theorem breaks_cons {c : Char} (h : ¬EndsLine c) (base : Nat) (t : Text) :
    breaks base (c :: t) = breaks (base + c.utf8Size) t := by
  have hr : c ≠ '\r' := fun he => h (.inr he)
  rw [breaks]
  · exact if_neg h
  · exact fun _ he _ => hr he

theorem breaks_append {content : Text} (hc : ∀ c ∈ content, ¬EndsLine c) (base : Nat) (x : Text) :
    breaks base (content ++ x) = breaks (base + bytes content) x := by
  induction content generalizing base with
  | nil => rfl
  | cons c content ih =>
    obtain ⟨h, hc⟩ := List.forall_mem_cons.1 hc
    rw [List.cons_append, breaks_cons h, ih hc, bytes_cons, Nat.add_assoc]

theorem breaks_ending {ending rest : Text} (base : Nat)
    (he : ending = ['\r', '\n'] ∨ ending = ['\n'] ∨ ending = ['\r'] ∧ rest.head? ≠ some '\n') :
    breaks base (ending ++ rest) =
      ⟨base, base + bytes ending⟩ :: breaks (base + bytes ending) rest := by
  rcases he with rfl | rfl | ⟨rfl, hrest⟩
  · rfl
  · rfl
  · rw [List.singleton_append, breaks]
    · rfl
    · rintro t - rfl
      exact hrest rfl

theorem lt_stop_of_mem_breaks {base : Nat} {t : Text} {s : Span} (h : s ∈ breaks base t) :
    base < s.stop := by
  fun_induction breaks base t with
  | case1 => cases h
  | case2 base t ih =>
    rcases List.mem_cons.1 h with rfl | h
    · exact Nat.lt_add_of_pos_right Nat.two_pos
    · exact Nat.lt_trans (Nat.lt_add_of_pos_right Nat.two_pos) (ih h)
  | case3 base c t _ _ ih =>
    rcases List.mem_cons.1 h with rfl | h
    · exact Nat.lt_succ_self base
    · exact Nat.lt_trans (Nat.lt_succ_self base) (ih h)
  | case4 base c t _ _ ih => exact Nat.lt_of_le_of_lt (Nat.le_add_right ..) (ih h)

/-- The line ends of a text are that of its first line and those of the rest. -/
theorem breaks_line {content ending rest : Text} (base : Nat) (hc : ∀ c ∈ content, ¬EndsLine c)
    (he : ending = ['\r', '\n'] ∨ ending = ['\n'] ∨ ending = ['\r'] ∧ rest.head? ≠ some '\n') :
    breaks base (content ++ (ending ++ rest)) =
      ⟨base + bytes content, base + (⟨content, ending⟩ : Line).bytes⟩ ::
        breaks (base + (⟨content, ending⟩ : Line).bytes) rest := by
  rw [breaks_append hc, breaks_ending _ he, Nat.add_assoc]
  rfl

section
variable {bs : List Span} {s : Span} {n : Nat}

theorem lineStart_cons (base : Nat) (h : s.stop ≤ n) :
    lineStart base (s :: bs) n = lineStart s.stop bs n := by
  simp only [lineStart, List.filter_cons, decide_eq_true h, if_true, List.map_cons,
    List.getLastD_cons]

theorem lineStop_cons (last : Nat) (h : s.stop ≤ n) :
    lineStop last (s :: bs) n = lineStop last bs n := by
  simp [lineStop, Nat.not_lt.2 h]

theorem lineStart_of_lt (base : Nat) (h : ∀ s ∈ bs, n < s.stop) : lineStart base bs n = base := by
  have hnone : bs.filter (·.stop ≤ n) = [] :=
    List.filter_eq_nil_iff.2 fun s hs => by simpa using h s hs
  rw [lineStart, hnone]
  rfl

theorem lineStop_of_lt (last : Nat) (h : n < s.stop) : lineStop last (s :: bs) n = s.start := by
  simp [lineStop, h]

end

/-! ## The scan of the lines -/

/-- `p?` is what a scan counts for the offset `n` of a text that starts at offset `base` with line
number `i`; the place of the offset is the one behind `a`. -/
def IsCounted (t a : Text) (n base i : Nat) (p? : Option Position) : Prop :=
  ∃ x u y, t = x ++ (u ++ y) ∧
    base + bytes x = lineStart base (breaks base t) (base + bytes a) ∧
    base + bytes x + bytes u =
      min (base + n) (lineStop (base + bytes t) (breaks base t) (base + bytes a)) ∧
    p? = some ⟨i + (breaks base t).countP (·.stop ≤ base + bytes a), units u⟩

variable {content ending rest a b : Text} {ls : List Line} {n : Nat}

theorem isCounted_last (hc : ∀ c ∈ content, ¬EndsLine c) (ht : content = a ++ b)
    (ha : bytes a = min n (bytes content)) (base i : Nat) :
    IsCounted content a n base i (locate i [⟨content, []⟩] n) := by
  have hnone : breaks base content = [] := by
    have := breaks_append hc base []
    rwa [List.append_nil] at this
  have hcut : cutBytes? (min n (bytes content)) content = some (a, b) :=
    cutBytes?_eq_some_iff.2 ⟨ht, ha⟩
  refine ⟨[], a, b, ht, by rw [hnone]; rfl, ?_, ?_⟩
  · rw [hnone]
    simp only [lineStop, List.find?_nil, Option.map_none, Option.getD_none, bytes_nil]
    omega
  · simp only [locate, Line.column?, hcut, hnone]
    rfl

/-- The place is in the first line, or in the end of it. -/
theorem isCounted_first (hc : ∀ c ∈ content, ¬EndsLine c)
    (he : ending = ['\r', '\n'] ∨ ending = ['\n'] ∨ ending = ['\r'] ∧ rest.head? ≠ some '\n')
    (hls : ls ≠ []) (ht : content ++ (ending ++ rest) = a ++ b) (ha : bytes a = n)
    (hn : n < (⟨content, ending⟩ : Line).bytes) (base i : Nat) :
    IsCounted (content ++ (ending ++ rest)) a n base i (locate i (⟨content, ending⟩ :: ls) n) := by
  have hbehind : ∀ s ∈ breaks base (content ++ (ending ++ rest)), base + bytes a < s.stop := by
    rw [breaks_line base hc he]
    refine List.forall_mem_cons.2 ⟨by simp only; omega, fun s hs => ?_⟩
    have := lt_stop_of_mem_breaks hs
    omega
  have hcount : (breaks base (content ++ (ending ++ rest))).countP (·.stop ≤ base + bytes a) = 0 :=
    List.countP_eq_zero.2 fun s hs => by simpa using hbehind s hs
  have hstop : ∀ last, lineStop last (breaks base (content ++ (ending ++ rest))) (base + bytes a) =
      base + bytes content := by
    intro last
    rw [breaks_line base hc he] at hbehind ⊢
    exact lineStop_of_lt last (hbehind _ List.mem_cons_self)
  simp only [IsCounted, lineStart_of_lt base hbehind, hcount, hstop, locate_cons hls, if_pos hn]
  by_cases hle : bytes a ≤ bytes content
  · obtain ⟨v, hv, -⟩ := exists_of_bytes_le ht.symm hle
    have hcol : (⟨content, ending⟩ : Line).column? n = some (units a) := by
      rw [← ha]
      exact column?_of_append hv
    exact ⟨[], a, b, ht, rfl, by simp only [bytes_nil]; omega, by rw [hcol]; rfl⟩
  · have hcol : (⟨content, ending⟩ : Line).column? n = some (units content) :=
      column?_of_le (by simp only; omega)
    exact ⟨[], content, _, rfl, rfl, by simp only [bytes_nil]; omega, by rw [hcol]; rfl⟩

/-- The place is behind the first line. -/
theorem isCounted_further (hc : ∀ c ∈ content, ¬EndsLine c)
    (he : ending = ['\r', '\n'] ∨ ending = ['\n'] ∨ ending = ['\r'] ∧ rest.head? ≠ some '\n')
    (hls : ls ≠ []) (hn : (⟨content, ending⟩ : Line).bytes ≤ n) {base i : Nat}
    (h : IsCounted rest a (n - (⟨content, ending⟩ : Line).bytes)
      (base + (⟨content, ending⟩ : Line).bytes) (i + 1)
      (locate (i + 1) ls (n - (⟨content, ending⟩ : Line).bytes))) :
    IsCounted (content ++ (ending ++ rest)) (content ++ (ending ++ a)) n base i
      (locate i (⟨content, ending⟩ :: ls) n) := by
  obtain ⟨x, u, y, rfl, hstart, hstop, hloc⟩ := h
  have hbreaks : breaks base (content ++ (ending ++ (x ++ (u ++ y)))) = _ :=
    breaks_line base hc he
  have hbytes : ∀ z, bytes (content ++ (ending ++ z)) = (⟨content, ending⟩ : Line).bytes + bytes z :=
    fun z => by simp [Line.bytes, Nat.add_assoc]
  generalize (⟨content, ending⟩ : Line) = l at *
  have hle : base + l.bytes ≤ base + l.bytes + bytes a := Nat.le_add_right ..
  refine ⟨content ++ (ending ++ x), u, y, by simp, ?_, ?_, ?_⟩
  · rw [hbreaks, hbytes, hbytes, ← Nat.add_assoc, ← Nat.add_assoc, hstart, lineStart_cons base hle]
  · rw [hbreaks, hbytes, hbytes, hbytes, ← Nat.add_assoc, ← Nat.add_assoc, ← Nat.add_assoc, hstop,
      lineStop_cons _ hle]
    congr 1
    omega
  · rw [hbreaks, hbytes, ← Nat.add_assoc, locate_cons hls, if_neg (Nat.not_lt.2 hn), hloc]
    simp only [List.countP_cons, decide_eq_true hle, if_true]
    rw [Nat.add_assoc, Nat.add_comm 1]

/-- The position of a place within lines, by counting. -/
theorem isCounted_locate {t : Text} (hls : AreLines t ls) (ht : t = a ++ b)
    (ha : bytes a = min n (bytes t)) (base i : Nat) : IsCounted t a n base i (locate i ls n) := by
  induction hls generalizing a n base i with
  | last hc => exact isCounted_last hc ht ha base i
  | @cons content ending rest ls hc he hls ih =>
    have hbytes : ∀ z, bytes (content ++ (ending ++ z)) =
        (⟨content, ending⟩ : Line).bytes + bytes z := fun z => by simp [Line.bytes, Nat.add_assoc]
    rw [hbytes] at ha
    by_cases hn : n < (⟨content, ending⟩ : Line).bytes
    · exact isCounted_first hc he hls.ne_nil ht (by omega) hn base i
    · have hline : bytes (content ++ ending) = (⟨content, ending⟩ : Line).bytes := bytes_append ..
      have hsplit : (content ++ ending) ++ rest = a ++ b := by rw [List.append_assoc, ht]
      obtain ⟨a, rfl, hrest⟩ := exists_of_bytes_le hsplit (by omega)
      rw [List.append_assoc] at ha ⊢
      rw [hbytes] at ha
      exact isCounted_further hc he hls.ne_nil (Nat.not_lt.1 hn) (ih hrest (by omega) _ _)

/-- **The position of an offset** is what a scan of the text from the left counts: the line ends that
end up to it, and the code units between the start of its line and the offset, or the end of the
line's content if that comes first. -/
theorem position?_eq_scan {t : Text} {n : Nat} (h : IsBoundary t (min n (bytes t))) :
    ∃ u, slice? (lineStart 0 (breaks 0 t) (min n (bytes t)))
        (min n (lineStop (bytes t) (breaks 0 t) (min n (bytes t)))) t = some u ∧
      position? t n = some ⟨(breaks 0 t).countP (·.stop ≤ min n (bytes t)), units u⟩ := by
  obtain ⟨a, b, ht, ha⟩ := h
  obtain ⟨x, u, y, hx, hstart, hstop, hloc⟩ := isCounted_locate (areLines_lines t) ht ha 0 0
  simp only [Nat.zero_add, ha] at hstart hstop hloc
  exact ⟨u, slice?_eq_some_iff.2 ⟨x, y, hx, hstart, by rw [← hstop, hstart]⟩, hloc⟩

/-- A carriage return of its own, an empty line, and a pair of code units before the place. -/
theorem position?_eq_scan_mixed :
    let t : Text := "é\r\r\n\n😀x\r"
    IsBoundary t (min 10 (bytes t)) ∧ position? t 10 = some ⟨3, 2⟩ ∧
      position? t 4 = some ⟨1, 0⟩ ∧ position? t 99 = some ⟨4, 0⟩ := by
  intro t
  have at10 : IsBoundary t (min 10 (bytes t)) := ⟨"é\r\r\n\n😀".toList, "x\r".toList, rfl, rfl⟩
  have at4 : IsBoundary t (min 4 (bytes t)) := ⟨"é\r\r".toList, "\n\n😀x\r".toList, rfl, rfl⟩
  have at99 : IsBoundary t (min 99 (bytes t)) := ⟨t, [], rfl, rfl⟩
  obtain ⟨u, hu, h10⟩ := position?_eq_scan at10
  obtain ⟨v, hv, h4⟩ := position?_eq_scan at4
  obtain ⟨w, hw, h99⟩ := position?_eq_scan at99
  have hu' : some u = some "😀".toList := hu.symm.trans (by decide)
  have hv' : some v = some [] := hv.symm.trans (by decide)
  have hw' : some w = some [] := hw.symm.trans (by decide)
  obtain rfl := Option.some.inj hu'
  obtain rfl := Option.some.inj hv'
  obtain rfl := Option.some.inj hw'
  exact ⟨at10, h10.trans (by decide), h4.trans (by decide), h99.trans (by decide)⟩

end QuickFix.Text
