import Mathlib.Data.List.Infix
import QuickFix.Text.Basic

/-!
# Parts of a text exchanged

Going over a text from the left, `Text.exchange` puts something else for each part that it finds;
`Text.replaceAll` does so for all occurrences of one text (`replaceAll_eq_exchange`).

* `exchange_append_cons`: a character that stands in no part parts what is before it from what is behind it;
* `replaceAll_eq_self_iff`: a text that does not change;
* `replaceAll_append`, `count_replaceAll`: what is left, and how often a character stands in the text then,
  by the number of `occurrences`.
-/

namespace QuickFix.Text

/-! ## Going over a text from the left -/

/-- The text with parts of it exchanged, from the left: `m` tells whether a part starts here, what is
put there and what follows the part. -/
def exchange (m : Text → Option (Text × Text)) : Text → Text
  | [] => []
  | c :: t =>
    match m (c :: t) with
    | some (new, r) =>
      if _h : r.length < (c :: t).length then new ++ exchange m r else c :: exchange m t
    | none => c :: exchange m t
termination_by t => t.length
decreasing_by
  · exact _h
  · exact Nat.lt_succ_self t.length
  · exact Nat.lt_succ_self t.length

section
variable {m : Text → Option (Text × Text)} {c : Char} {t new r : Text}

theorem exchange_of_none (h : m (c :: t) = none) : exchange m (c :: t) = c :: exchange m t := by
  rw [exchange, h]

theorem exchange_of_lt (h : m (c :: t) = some (new, r)) (hlt : r.length < (c :: t).length) :
    exchange m (c :: t) = new ++ exchange m r := by
  rw [exchange, h]
  exact dif_pos hlt

theorem exchange_of_not_lt (h : m (c :: t) = some (new, r)) (hlt : ¬r.length < (c :: t).length) :
    exchange m (c :: t) = c :: exchange m t := by
  rw [exchange, h]
  exact dif_neg hlt

end

theorem replaceAll_eq_exchange (old new t : Text) :
    replaceAll old new t = exchange (fun u => (after? old u).map (new, ·)) t := by
  fun_induction replaceAll old new t with
  | case1 => rw [exchange]
  | case2 c t r hr hlt ih => rw [exchange_of_lt (by rw [hr]; rfl) hlt, ih]
  | case3 c t r hr hlt ih => rw [exchange_of_not_lt (by rw [hr]; rfl) hlt, ih]
  | case4 c t hr ih => rw [exchange_of_none (by rw [hr]; rfl), ih]

/-- No part that `m` finds reaches over the character `c`, or starts with it. -/
structure Parted (m : Text → Option (Text × Text)) (c : Char) : Prop where
  here : ∀ t, m (c :: t) = none
  across : ∀ d a t, m (d :: (a ++ c :: t)) = (m (d :: a)).map fun (new, r) => (new, r ++ c :: t)

theorem exchange_append_cons {m : Text → Option (Text × Text)} {c : Char} (h : Parted m c)
    (a t : Text) : exchange m (a ++ c :: t) = exchange m a ++ c :: exchange m t := by
  have hlt : ∀ (d : Char) (a r : Text),
      (r ++ c :: t).length < (d :: (a ++ c :: t)).length ↔ r.length < (d :: a).length := by
    intro d a r
    simp only [List.length_append, List.length_cons]
    omega
  fun_induction exchange m a with
  | case1 => rw [List.nil_append, exchange_of_none (h.here t), List.nil_append]
  | case2 d a new r hr hr' ih =>
    rw [List.cons_append, exchange_of_lt (by rw [h.across, hr]; rfl) ((hlt d a r).2 hr'), ih,
      List.append_assoc]
  | case3 d a new r hr hr' ih =>
    rw [List.cons_append, exchange_of_not_lt (by rw [h.across, hr]; rfl) (mt (hlt d a r).1 hr'), ih,
      List.cons_append]
  | case4 d a hr ih =>
    rw [List.cons_append, exchange_of_none (by rw [h.across, hr]; rfl), ih, List.cons_append]

theorem exchange_eq_self {m : Text → Option (Text × Text)} {t : Text}
    (h : ∀ c ∈ t, ∀ u, m (c :: u) = none) : exchange m t = t := by
  induction t with
  | nil => rw [exchange]
  | cons c t ih =>
    obtain ⟨hc, ht⟩ := List.forall_mem_cons.1 h
    rw [exchange_of_none (hc t), ih ht]

theorem exchange_append {m : Text → Option (Text × Text)} {p new r : Text} (hp : p ≠ [])
    (h : m (p ++ r) = some (new, r)) : exchange m (p ++ r) = new ++ exchange m r := by
  obtain ⟨c, q, rfl⟩ := List.exists_cons_of_ne_nil hp
  have hlt : r.length < (c :: (q ++ r)).length := by
    rw [List.length_cons, List.length_append]
    omega
  exact exchange_of_lt h hlt

/-- A part at the start of a text is exchanged. -/
theorem exchange_whole {m : Text → Option (Text × Text)} {t new : Text} (ht : t ≠ [])
    (h : m t = some (new, [])) : exchange m t = new := by
  obtain ⟨c, u, rfl⟩ := List.exists_cons_of_ne_nil ht
  rw [exchange_of_lt h (Nat.succ_pos _), exchange, List.append_nil]

theorem replaceAll_of_none {old t : Text} {c : Char} (new : Text) (h : after? old (c :: t) = none) :
    replaceAll old new (c :: t) = c :: replaceAll old new t := by
  rw [replaceAll, h]

theorem replaceAll_append_self {old : Text} (hold : old ≠ []) (new r : Text) :
    replaceAll old new (old ++ r) = new ++ replaceAll old new r := by
  rw [replaceAll_eq_exchange, replaceAll_eq_exchange]
  refine exchange_append hold ?_
  rw [after?_eq_some_iff.2 rfl]
  rfl

/-- The lengths balance for the number `n` of the parts that are exchanged. -/
theorem exists_length_replaceAll (old new t : Text) : ∃ n,
    (replaceAll old new t).length + n * old.length = t.length + n * new.length := by
  fun_induction replaceAll old new t with
  | case1 => exact ⟨0, by rw [Nat.zero_mul, Nat.zero_mul]⟩
  | case2 c t r hr _ ih =>
    obtain ⟨n, hn⟩ := ih
    have hlen := congrArg List.length (after?_eq_some_iff.1 hr)
    refine ⟨n + 1, ?_⟩
    rw [List.length_append] at hlen ⊢
    rw [Nat.succ_mul, Nat.succ_mul]
    omega
  | case3 c t r _ _ ih =>
    obtain ⟨n, hn⟩ := ih
    exact ⟨n, by rw [List.length_cons, List.length_cons]; omega⟩
  | case4 c t _ ih =>
    obtain ⟨n, hn⟩ := ih
    exact ⟨n, by rw [List.length_cons, List.length_cons]; omega⟩

theorem replaceAll_self (old t : Text) : replaceAll old old t = t := by
  fun_induction replaceAll old old t with
  | case1 => rfl
  | case2 c t r hr _ ih => rw [ih, after?_eq_some_iff.1 hr]
  | case3 c t r _ _ ih => rw [ih]
  | case4 c t _ ih => rw [ih]

theorem replaceAll_eq_self_iff {old new t : Text} (hold : old ≠ []) :
    replaceAll old new t = t ↔ contains t old = false ∨ new = old := by
  constructor
  · intro h
    cases hat : around? old t with
    | none => exact .inl (by rw [contains, hat]; rfl)
    | some parts =>
      obtain ⟨a, b⟩ := parts
      have ht := eq_append_of_around? hat
      rw [replaceAll_of_around? new hold hat, ht, List.append_assoc] at h
      have hb := List.append_cancel_left h
      have hlen := congrArg List.length hb
      rw [List.length_append, List.length_append] at hlen
      -- With the parts behind, one part more than `n` gets longer or shorter in the same way.
      obtain ⟨n, hn⟩ := exists_length_replaceAll old new b
      have hparts : (n + 1) * new.length = (n + 1) * old.length := by
        rw [Nat.succ_mul, Nat.succ_mul]
        omega
      have heq : new.length = old.length := Nat.eq_of_mul_eq_mul_left (Nat.succ_pos n) hparts
      exact .inr (List.append_inj_left hb heq)
  · rintro (h | rfl)
    · exact replaceAll_eq_self new (Option.not_isSome_iff_eq_none.1 (by simpa [contains] using h))
    · exact replaceAll_self new t

theorem after?_append_cons {p : Text} {c : Char} (hc : c ∉ p) (a t : Text) :
    after? p (a ++ c :: t) = (after? p a).map (· ++ c :: t) := by
  induction p generalizing a with
  | nil => rfl
  | cons d p ih =>
    obtain ⟨hd, hp⟩ := not_or.1 (mt List.mem_cons.2 hc)
    cases a with
    | nil => simp [after?, Ne.symm hd]
    | cons e a =>
      by_cases he : d = e
      · simpa [after?, he] using ih hp a
      · simp [after?, he]

/-! ## How often a text occurs -/

/-- Number of the places of a text at which `p` stands. -/
def occurrences (p t : Text) : Nat := t.tails.countP (startsWith · p)

variable {p t u r : Text} {c d : Char}

theorem occurrences_cons (p t : Text) (c : Char) :
    occurrences p (c :: t) = (startsWith (c :: t) p).toNat + occurrences p t := by
  rw [occurrences, List.tails_cons, List.countP_cons, Nat.add_comm]
  cases startsWith (c :: t) p <;> rfl

theorem occurrences_cons_of_none (h : after? p (c :: t) = none) :
    occurrences p (c :: t) = occurrences p t := by
  rw [occurrences_cons, startsWith, h]
  exact Nat.zero_add _

theorem le_occurrences_append (p u r : Text) : occurrences p r ≤ occurrences p (u ++ r) := by
  induction u with
  | nil => exact Nat.le_refl _
  | cons c u ih =>
    rw [List.cons_append, occurrences_cons]
    exact Nat.le_trans ih (Nat.le_add_left _ _)

/-- Nothing starts in a text without the first character. -/
theorem occurrences_append_of_not_mem (hu : d ∉ u) :
    occurrences (d :: p) (u ++ r) = occurrences (d :: p) r := by
  induction u with
  | nil => rfl
  | cons c u ih =>
    obtain ⟨hc, hu⟩ := not_or.1 (mt List.mem_cons.2 hu)
    rw [List.cons_append, occurrences_cons_of_none (by rw [after?, if_neg hc]), ih hu]

theorem occurrences_append_self (hp : d ∉ p) :
    occurrences (d :: p) (d :: p ++ r) = occurrences (d :: p) r + 1 := by
  have hstarts : startsWith (d :: (p ++ r)) (d :: p) = true := by
    rw [startsWith, after?_eq_some_iff.2 (List.cons_append ..).symm]
    rfl
  rw [List.cons_append, occurrences_cons, hstarts, occurrences_append_of_not_mem hp, Nat.add_comm]
  rfl

/-- A text in which nothing starts is left. -/
theorem replaceAll_append (new : Text) (h : occurrences p (u ++ r) = occurrences p r) :
    replaceAll p new (u ++ r) = u ++ replaceAll p new r := by
  induction u with
  | nil => rfl
  | cons c u ih =>
    rw [List.cons_append, occurrences_cons] at h
    have hle := le_occurrences_append p u r
    have hnone : after? p (c :: (u ++ r)) = none := by
      cases hs : startsWith (c :: (u ++ r)) p with
      | true => rw [hs, Bool.toNat_true] at h; omega
      | false => simpa [startsWith] using hs
    rw [List.cons_append, replaceAll_of_none new hnone, ih (by omega)]
    rfl

/-- What is put for `p` goes in once for each occurrence, where no two of them overlap. -/
theorem count_replaceAll (x : Char) (new : Text) (hp : d ∉ p) (t : Text) :
    (replaceAll (d :: p) new t).count x + occurrences (d :: p) t * (d :: p).count x =
      t.count x + occurrences (d :: p) t * new.count x := by
  fun_induction replaceAll (d :: p) new t with
  | case1 => simp [occurrences, startsWith, after?]
  | case2 c t r hr _ ih =>
    rw [after?_eq_some_iff.1 hr, occurrences_append_self hp, List.count_append, List.count_append,
      Nat.succ_mul, Nat.succ_mul]
    omega
  | case3 c t r hr hlt ih =>
    rw [after?_eq_some_iff.1 hr, List.length_append, List.length_cons] at hlt
    omega
  | case4 c t hr ih =>
    rw [occurrences_cons_of_none hr, List.count_cons (l := replaceAll (d :: p) new t),
      List.count_cons (l := t)]
    omega

end QuickFix.Text
