import Mathlib.Data.List.Induction
import QuickFix.Schedule.Script
import QuickFix.Proofs.Schedule.History

/-!
# Write actions

A write action is open from where it starts to where it ends, by itself or by a panic, however deep in
it the panic is. No job starts and no pump runs anything in between, and the depth after it is the depth
before it (`WritesNest`).
-/

namespace QuickFix.Schedule

open Happening

/-- Does a write action start in the history and not end in it? Write actions nest, so one is open for
as long as no more of them have ended than started after it. -/
def IsWriting {α ν : Type} (h : List (Happening α ν)) : Prop :=
  ∃ h₁ h₂, h = h₁ ++ .writeStarted :: h₂ ∧ ∀ h₃, h₃ <+: h₂ → writesEnded h₃ ≤ writesStarted h₃

section

variable {α ν : Type} {h : List (Happening α ν)}

theorem exists_open_start {c : Nat} (hc : writesEnded h + c < writesStarted h) :
    ∃ h₁ h₂, h = h₁ ++ .writeStarted :: h₂ ∧ writesEnded h₂ + c ≤ writesStarted h₂ ∧
      ∀ h₃, h₃ <+: h₂ → writesEnded h₃ ≤ writesStarted h₃ := by
  induction h using List.reverseRecOn generalizing c with
  | nil => exact absurd hc (Nat.not_lt_zero _)
  | append_singleton h x ih =>
    rw [writesEnded_append, writesStarted_append] at hc
    have extend (c' : Nat) (hc' : writesEnded h + c' < writesStarted h)
        (hx : c + writesEnded [x] = c' + writesStarted [x]) :
        ∃ h₁ h₂, h ++ [x] = h₁ ++ .writeStarted :: h₂ ∧ writesEnded h₂ + c ≤ writesStarted h₂ ∧
          ∀ h₃, h₃ <+: h₂ → writesEnded h₃ ≤ writesStarted h₃ := by
      obtain ⟨h₁, h₂, rfl, hle, hpre⟩ := ih hc'
      have hle' : writesEnded (h₂ ++ [x]) + c ≤ writesStarted (h₂ ++ [x]) := by
        rw [writesEnded_append, writesStarted_append]
        omega
      refine ⟨h₁, h₂ ++ [x], by simp, hle', fun h₃ hp => ?_⟩
      obtain rfl | hp := List.prefix_concat_iff.1 hp
      · exact Nat.le_trans (Nat.le_add_right ..) hle'
      · exact hpre h₃ hp
    cases x with
    | writeStarted =>
      cases c with
      | zero =>
        refine ⟨h, [], rfl, Nat.le_refl _, fun h₃ hp => ?_⟩
        rw [List.prefix_nil.1 hp]
        exact Nat.le_refl _
      | succ c =>
        change writesEnded h + (c + 1) < writesStarted h + 1 at hc
        exact extend c (by omega) rfl
    | writeEnded =>
      change writesEnded h + 1 + c < writesStarted h at hc
      exact extend (c + 1) (by omega) rfl
    | queued j | started j | pumped ran => exact extend c hc rfl

/-- A write action is open if more of them have started than ended. -/
theorem isWriting_of_lt (hlt : writesEnded h < writesStarted h) : IsWriting h := by
  obtain ⟨h₁, h₂, heq, -, hpre⟩ := exists_open_start (c := 0) hlt
  exact ⟨h₁, h₂, heq, hpre⟩

end

namespace Machine

variable {α σ β ν : Type}

/-- What holds for write actions at a point `m` of a run that has the history `h`. -/
structure WritesNest (M : Meaning α σ β ν) (h : List (Happening α ν)) (m : Machine α σ β ν) :
    Prop where
  isWriting_iff : m.view.isWriting = true ↔ IsWriting h
  starts {j : Job α ν} (hj : .started j ∈ m.happenings M) : m.view.isWriting = false
  /-- A pump in a write action has the result 0 and changes nothing but what is to do. -/
  pumps {ss : Program α} {k : List (Frame α)} (hs : m.stack = .steps (.pump :: ss) :: k)
    (hw : m.view.isWriting = true) : ∃ n, m.next? M = some n ∧ m.happenings M = [.pumped 0] ∧
      n.queue = m.queue ∧ n.depth = m.depth ∧ n.stack = .steps ss :: k
  /-- After a write action the depth is what it was before it, also where a panic comes out of it and
  goes on from there. -/
  writes {c : Bool} {body ss : Program α} {k : List (Frame α)}
    (hs : m.stack = .steps (.writing c body :: ss) :: k) : ∃ h' n, Runs M m h' n ∧
      (n.stack = .steps ss :: k ∧ n.depth = m.depth ∨
        c = false ∧ ∃ p, ∃ l : Machine α σ β ν,
          n = l.unwind p (.steps ss :: k) ∧ l.depth = m.depth)
  /-- After a job the depth is what it was before it, also where a panic ends the job. -/
  jobs {ran : Nat} {j : Job α ν} {js : List (Job α ν)} {k : List (Frame α)}
    (hs : m.stack = .pumping ran :: k) (hq : m.queue = j :: js) : ∃ h' n, Runs M m h' n ∧
      n.stack = .pumping (ran + 1) :: k ∧ n.depth = m.depth

section

variable {M : Meaning α σ β ν} {m n : Machine α σ β ν} {h : List (Happening α ν)}

/-- A job starts only where no write action is open. -/
theorem Move.depth_of_started (hm : Move m h n) (hs : Sound m) {j : Job α ν}
    (hj : .started j ∈ h) : m.depth = 0 := by
  cases hm with
  | finished | writeStarted | refused | pumpStarted | writeEnded | pumpEnded => simp at hj
  | went js => simp at hj
  | panicked js => simp at hj
  | started hs' => exact hs.depth_of_pumping hs'

theorem exists_write_end (hm : Sound m) {c : Bool} {body ss : Program α} {k : List (Frame α)}
    (hs : m.stack = .steps (.writing c body :: ss) :: k) : ∃ h' n, Runs M m h' n ∧
      (n.stack = .steps ss :: k ∧ n.depth = m.depth ∨
        c = false ∧ ∃ p, ∃ l : Machine α σ β ν,
          n = l.unwind p (.steps ss :: k) ∧ l.depth = m.depth) := by
  obtain ⟨m₁, hm₁⟩ := exists_next? (M := M) (m := m) (by simp [hs])
  have hs₁ : m₁.stack = [.steps body] ++ .endWrite c body.length :: .steps ss :: k := by
    simp only [next?, hs, perform, Option.some.injEq] at hm₁
    rw [← hm₁]
    rfl
  have hsound₁ := (move_of_next? hm₁).sound hm
  have hd : m.depth = openWrites (.steps ss :: k) := by
    rw [hm.depth_eq, hs]
    rfl
  obtain ⟨h, n, hr, hn | ⟨-, p, l, rfl, hl⟩⟩ :=
    exists_leaves (M := M) hs₁ hsound₁
  · -- The steps of the write action are done; it ends by itself.
    have hn₁ : n.next? M = some
        ({ n with stack := .steps ss :: k, depth := n.depth - 1 }.note (.writeEnded body.length)) := by
      simp only [next?, hn]
    refine ⟨_, _, (Runs.step hm₁ hr).trans (.one hn₁), .inl ⟨rfl, ?_⟩⟩
    show n.depth - 1 = m.depth
    rw [(hr.sound hsound₁).depth_eq, hn, hd]
    simp [openWrites]
  · have hl' : l.depth - 1 = m.depth := by
      rw [hl, hd]
      simp [openWrites]
    cases c with
    | true => exact ⟨_, _, .step hm₁ hr, .inl ⟨rfl, hl'⟩⟩
    | false => exact ⟨_, _, .step hm₁ hr, .inr ⟨rfl, p, _, rfl, hl'⟩⟩

theorem exists_job_end (hm : Sound m) {ran : Nat} {j : Job α ν} {js : List (Job α ν)}
    {k : List (Frame α)} (hs : m.stack = .pumping ran :: k) (hq : m.queue = j :: js) :
    ∃ h' n, Runs M m h' n ∧ n.stack = .pumping (ran + 1) :: k ∧ n.depth = m.depth := by
  obtain ⟨m₁, hm₁⟩ := exists_next? (M := M) (m := m) (by simp [hs])
  have hs₁ : m₁.stack = frames j ++ .pumping (ran + 1) :: k := by
    simp only [next?, hs, hq, Option.some.injEq] at hm₁
    rw [← hm₁]
    exact (core_eq_iff.1 (core_start ..)).2.2
  have hd : m.depth = openWrites (.pumping (ran + 1) :: k) := by
    rw [hm.depth_eq, hs]
    rfl
  have hsound₁ := (move_of_next? hm₁).sound hm
  obtain ⟨h, n, hr, hn | ⟨-, p, l, rfl, hl⟩⟩ := exists_leaves (M := M) hs₁ hsound₁
  · refine ⟨_, n, .step hm₁ hr, hn, ?_⟩
    rw [(hr.sound hsound₁).depth_eq, hn, hd]
  · exact ⟨_, _, .step hm₁ hr, rfl, hl.trans hd.symm⟩

/-- **Write actions nest**, and the depth says whether one is open. -/
theorem writes_nest {w : σ} {q : List (Job α ν)} {p : Program α} (hr : Runs M (load w q p) h m) :
    WritesNest M h m := by
  have hsound := hr.sound (sound_load w q p)
  have hbalance := hr.writes_eq
  have hload : openWrites (load w q p : Machine α σ β ν).stack = 0 := rfl
  refine ⟨?_, ?_, ?_, exists_write_end hsound, exists_job_end hsound⟩
  · have hd : m.view.isWriting = true ↔ 0 < openWrites m.stack := by
      rw [← hsound.depth_eq]
      exact decide_eq_true_iff
    rw [hd]
    constructor
    · intro hd
      exact isWriting_of_lt (by omega)
    · rintro ⟨h₁, h₂, rfl, hpre⟩
      have h₁le := hr.writesEnded_le (List.prefix_append h₁ _)
      have h₂le := hpre h₂ List.prefix_rfl
      have hone : writesStarted (.writeStarted :: h₂) = writesStarted h₂ + 1 :=
        List.countP_cons_of_pos rfl
      have hnone : writesEnded (.writeStarted :: h₂) = writesEnded h₂ := rfl
      rw [writesStarted_append, writesEnded_append, hone, hnone] at hbalance
      omega
  · intro j hj
    obtain ⟨n, hn⟩ : ∃ n, m.next? M = some n :=
      exists_next? (fun hs => by simp [happenings, hs] at hj)
    have := (move_of_next? hn).depth_of_started hsound hj
    simp [view, View.isWriting, this]
  · intro ss k hs hw
    have hd : 0 < m.depth := of_decide_eq_true hw
    obtain ⟨n, hn⟩ : ∃ n, m.next? M = some n := exists_next? (by simp [hs])
    have hh : m.happenings M = [.pumped 0] := by
      simp only [happenings, hs, happeningsOf, if_pos hd]
    have hn' := hn
    simp only [next?, hs, perform, if_pos hd, Option.some.injEq] at hn'
    subst hn'
    exact ⟨_, hn, hh, rfl, rfl, rfl⟩

end

/-- A panic ends two write actions in a job, and then the queue is to be pumped in another. -/
theorem writes_nest_of_panic :
    let job : Program Talk := [.writing false [.writing false [.panic .other]]]
    ∃ m, Runs talking (load () [] [.later job, .pump, .write [.pump]])
        [.queued (.program job), .started (.program job), .writeStarted, .writeStarted,
          .writeEnded, .writeEnded, .pumped 1, .writeStarted] m ∧
      m.depth = 1 ∧ WritesNest talking
        [.queued (.program job), .started (.program job), .writeStarted, .writeStarted,
          .writeEnded, .writeEnded, .pumped 1, .writeStarted] m := by
  intro job
  have hr : Runs talking (load () [] [.later job, .pump, .write [.pump]])
      [.queued (.program job), .started (.program job), .writeStarted, .writeStarted,
        .writeEnded, .writeEnded, .pumped 1, .writeStarted]
      ⟨(), 1, [], [.steps [.pump], .endWrite true 1, .steps []], _, none⟩ :=
    .step rfl (.step rfl (.step rfl (.step rfl (.step rfl (.step rfl (.step rfl (.step rfl
      (.refl _))))))))
  exact ⟨_, hr, rfl, writes_nest hr⟩

end Machine

end QuickFix.Schedule
