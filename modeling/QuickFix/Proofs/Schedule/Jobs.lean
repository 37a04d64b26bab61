import QuickFix.Schedule.Script
import QuickFix.Proofs.Schedule.History

/-!
# The queue of jobs

However jobs, pumps, write actions and panics are nested: jobs start in the order in which they were
put off and each at most once, none is lost, the pumps count them, and a pump outside of write actions
leaves nothing in the queue (`JobsInOrder`).
-/

namespace QuickFix.Schedule

open Happening

namespace Machine

variable {α σ β ν : Type}

/-- What holds for the jobs at a point `m` of a run that has the history `h`. -/
structure JobsInOrder (M : Meaning α σ β ν) (h : List (Happening α ν)) (m : Machine α σ β ν) :
    Prop where
  /-- The jobs that were put off are those that started and then those that are to start. -/
  order : queuedJobs h = startedJobs h ++ m.queue
  counts : (queuedJobs h).length = (startedJobs h).length + m.view.pending
  recorded : pumpResults h = (recordedResults m.record).reverse
  results : m.stack = [] → total id (pumpResults h) = (startedJobs h).length
  ends : ∃ h' n, Runs M m h' n ∧ n.stack = []
  /-- A pump outside of write actions ends, with its result, where nothing is put off; it and the
  pumps in it started what was put off before and what those jobs put off. -/
  pumps {ss : Program α} {k : List (Frame α)} (hs : m.stack = .steps (.pump :: ss) :: k)
    (hw : m.view.isWriting = false) : ∃ h' r n, Runs M m (h' ++ [.pumped r]) n ∧
      n.stack = .steps ss :: k ∧ n.queue = [] ∧ startedJobs h' = m.queue ++ queuedJobs h' ∧
      total id (pumpResults h') + r = (startedJobs h').length

variable {M : Meaning α σ β ν} {w : σ} {p : Program α} {h : List (Happening α ν)}
  {m : Machine α σ β ν}

theorem stack_of_next?_eq_none (hm : m.next? M = none) : m.stack = [] := by
  refine Classical.byContradiction fun hs => ?_
  obtain ⟨n, hn⟩ := exists_next? (M := M) hs
  rw [hm] at hn
  cases hn

theorem exists_pump {ss : Program α} {k : List (Frame α)}
    (hs : m.stack = .steps (.pump :: ss) :: k) (hw : m.view.isWriting = false) :
    ∃ h' r n, Runs M m (h' ++ [.pumped r]) n ∧ n.stack = .steps ss :: k ∧ n.queue = [] := by
  have hd : ¬ 0 < m.depth := of_decide_eq_false hw
  have hn : m.next? M = some { m with stack := .pumping 0 :: .steps ss :: k } := by
    simp only [next?, hs, perform, if_neg hd]
  have hs' : ({ m with stack := .pumping 0 :: .steps ss :: k } : Machine α σ β ν).stack =
      [] ++ .pumping 0 :: .steps ss :: k := rfl
  obtain ⟨h', r, n, hr, hend⟩ := exists_pump_end (M := M) hs'
  refine ⟨m.happenings M ++ h', r, n, ?_, hend⟩
  rw [List.append_assoc]
  exact .step hn hr

/-- **Jobs start in the order in which they were put off**, once each, and pumps start them all. -/
theorem jobs_in_order (hr : Runs M (load w [] p) h m) : JobsInOrder M h m where
  order := hr.queue_eq
  counts := by
    have : (queuedJobs h).length = (startedJobs h ++ m.queue).length := congrArg _ hr.queue_eq
    rwa [List.length_append] at this
  recorded := by
    rw [hr.recordedResults_eq]
    simp [recordedResults, load]
  results hs := by
    have := hr.results_eq
    rw [hs] at this
    simpa [ranSoFar, total, load] using this.symm
  ends := by
    obtain ⟨h', hr', hend⟩ := exists_runs_run M m
    exact ⟨h', _, hr', stack_of_next?_eq_none hend⟩
  pumps hs hw := by
    obtain ⟨h', r, n, hr', hn, hq⟩ := exists_pump (M := M) hs hw
    refine ⟨h', r, n, hr', hn, hq, ?_, ?_⟩
    · have := hr'.queue_eq
      simpa [hq, startedJobs, queuedJobs] using this.symm
    · have := hr'.results_eq
      rw [hs, hn, startedJobs_append, pumpResults_append, total_append] at this
      simp [ranSoFar, total, startedJobs, pumpResults] at this ⊢
      omega

/-- A job panics in a pump, after it put off a job that pumps the queue itself. -/
theorem jobs_in_order_of_panic :
    let last : Program Talk := [.pump]
    let first : Program Talk := [.later last, .panic .other]
    ∃ m, Runs talking (load () [] [.later first, .pump])
        [.queued (.program first), .started (.program first), .queued (.program last),
          .started (.program last), .pumped 0, .pumped 2] m ∧
      m.stack = [] ∧ JobsInOrder talking
        [.queued (.program first), .started (.program first), .queued (.program last),
          .started (.program last), .pumped 0, .pumped 2] m := by
  intro last first
  have hr : Runs talking (load () [] [.later first, .pump])
      [.queued (.program first), .started (.program first), .queued (.program last),
        .started (.program last), .pumped 0, .pumped 2]
      ⟨(), 0, [], [], _, none⟩ :=
    .step rfl (.step rfl (.step rfl (.step rfl (.step rfl (.step rfl (.step rfl (.step rfl
      (.step rfl (.step rfl (.step rfl (.refl _)))))))))))
  exact ⟨_, hr, rfl, jobs_in_order hr⟩

end Machine

end QuickFix.Schedule
